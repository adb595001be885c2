/-
  The match rules of connections.

  The list of the matchmaker and those of the connections agree over every run, and the rules
  of a connection are those it has added without those removed or dropped (`rules_are_kept`).
  Rules that name a connection which disconnects are dropped only if the connection has rules
  of its own (`disconnected_drops_iff`).
-/
import DBus.Bus.Delivery
import DBus.Bus.RuleParse
import DBus.Bus.Settlement
import Mathlib.Data.Multiset.Filter

namespace DBus

open BusM Eff List Function

/-! ## What leaves the rules alone -/

def Bus.rulesTo (s : Bus) (c : ℕ) : List (ℕ × BusMatchRule) :=
  s.allRules.filter (·.2.matchesGoTo = c)

/-- The list and the number of the rules of a connection. -/
def Bus.ownRules (s : Bus) (c : ℕ) : List ℕ × ℕ :=
  (s.connections c).data.elim ([], 0) fun d => (d.matchRules, d.nMatchRules)

def SameRules (s s' : Bus) : Prop :=
  s'.allRules = s.allRules ∧ s'.nextRule = s.nextRule ∧ s'.ownRules = s.ownRules

instance : IsPreorder Bus SameRules where
  refl _ := ⟨rfl, rfl, rfl⟩
  trans _ _ _ h h' := ⟨h'.1.trans h.1, h'.2.1.trans h.2.1, h'.2.2.trans h.2.2⟩

variable {s s' : Bus} {t : ℕ} {env : BusEnv} {c : ℕ}

section
variable {oom : Prop} {N : DBusError → Prop}

theorem sameRules_setData (c : ℕ) {f : BusConnectionData → BusConnectionData}
    (hf : ∀ d, (f d).matchRules = d.matchRules ∧ (f d).nMatchRules = d.nMatchRules) :
    SameRules s (s.setData c f) := by
  refine ⟨rfl, rfl, funext fun c' => ?_⟩
  by_cases hc : c' = c
  · cases hd : (s.connections c).data with
    | none => simp [Bus.ownRules, Bus.setData, Bus.setConnection, hc, hd]
    | some d => simp [Bus.ownRules, Bus.setData, Bus.setConnection, hc, hd, hf]
  · simp [Bus.ownRules, Bus.setData, Bus.setConnection, hc]

theorem Aside.sameRules (h : Aside s s') : SameRules s s' := by
  have ho : ∀ s : Bus, s.rest.ownRules = s.ownRules := by
    intro s
    funext c
    cases hd : (s.connections c).data with
    | none | some d => simp [Bus.ownRules, Bus.rest, hd]
  refine ⟨(congrArg Bus.allRules h.rest :), (congrArg Bus.nextRule h.rest :), ?_⟩
  rw [← ho s', h.rest, ho s]

theorem carries_sameRules : Carries oom t SameRules where
  broadcast _ _ := ⟨rfl, rfl, rfl⟩
  hook _ _ := ⟨rfl, rfl, rfl⟩
  same h := h.sameRules
  send c m _ := by
    refine leads_assert_bind fun _ => .get (.ite (fun _ => .pure) fun _ => ?_)
    refine leads_read fun d _ => leads_allocate_bind (leads_read fun tr _ => ?_)
    refine .bind (.modify (sameRules_setData c fun _ => ⟨rfl, rfl⟩)) fun _ s1 _ => ?_
    refine .ite (fun _ => .pure) fun _ => .bind (.onError leads_allocate fun s2 => .modify ?_)
      fun _ s2 _ => .modify (refl (r := SameRules) s2)
    exact sameRules_setData c fun _ => ⟨rfl, rfl⟩

theorem always_execute_sameRules :
    Always (lenient oom) N SameRules (busTransactionExecuteAndFree t) := by
  intro s
  refine leads_read fun tr _ => .bind (Always.forEach (fun c _ s1 => ?_) s) fun _ s2 _ => ?_
  · refine leads_read fun d _ => leads_assert_bind fun _ => .modify ?_
    have hdt : SameRules s1 (s1.setData c fun d => { d with
        transactionMessages := d.transactionMessages.filter (·.transaction ≠ t) }) :=
      sameRules_setData c fun _ => ⟨rfl, rfl⟩
    refine ⟨hdt.1, hdt.2.1, Eq.trans (funext fun c' => ?_) hdt.2.2⟩
    by_cases hc : c' = c <;> simp [Bus.ownRules, Bus.setData, Bus.setConnection, hc]
  · have hfr : Always (lenient oom) N SameRules (forEach (cancelHookFree false) tr.cancelHooks) :=
      (carries_sameRules (t := t)).always (Always.forEach fun hook _ => always_hookFree false hook)
    exact .bind (hfr s2) fun _ s3 _ => .modify (refl (r := SameRules) s3)

theorem always_dropServices_sameRules (c fuel : ℕ) :
    Always (lenient False) (MemoryError False) SameRules (dropServices env c fuel) := by
  induction fuel with
  | zero =>
    intro s
    exact leads_read fun d _ => .ite (fun _ => .pure) fun _ => leads_check
  | succ fuel ih =>
    intro s
    refine leads_read fun d _ => ?_
    cases d.servicesOwned.getLast? with
    | none => exact .pure
    | some service =>
      have hnw : Leads (lenient False) (MemoryError False) SameRules s busTransactionNew :=
        leads_allocate_bind (.get (.bind (.modify (refl (r := SameRules) s)) fun _ _ _ => .pure))
      refine .bind (.bind hnw fun t s1 _ => ?_) fun _ s4 _ => ih s4
      exact .bind (leads_removeOwner carries_sameRules env service c) fun _ s2 _ =>
        always_execute_sameRules s2

end

/-! ## Rules come and go -/

/-- The list of the matchmaker and those of the connections agree. -/
structure Ruled (env : BusEnv) (s : Bus) : Prop where
  ids : (s.allRules.map (·.1)).Nodup
  fresh : ∀ r ∈ s.allRules, r.1 < s.nextRule
  own : ∀ c, s.ownRules c = ((s.rulesTo c).map (·.1), (s.rulesTo c).length)
  limit : ∀ c, (s.rulesTo c).length ≤ env.maxMatchRulesPerConnection

def Bus.ruleBag (s : Bus) (c : ℕ) : Multiset BusMatchRule := (s.rulesTo c).map (·.2)

section
variable {rule : BusMatchRule} {r : ℕ × BusMatchRule} {l : List (ℕ × BusMatchRule)}
  {E : DBusError → Bus → Prop} {bag : ℕ → Multiset BusMatchRule}

theorem Ruled.same (h : Ruled env s) (hs : SameRules s s') :
    Ruled env s' ∧ s'.ruleBag = s.ruleBag := by
  obtain ⟨hal, hnx, ho⟩ := hs
  have hto : s'.rulesTo = s.rulesTo := by
    funext c
    simp [Bus.rulesTo, hal]
  refine ⟨⟨by rw [hal]; exact h.ids, by rw [hal, hnx]; exact h.fresh, ?_, ?_⟩, ?_⟩
  · rw [ho, hto]
    exact h.own
  · rw [hto]
    exact h.limit
  · funext c
    simp [Bus.ruleBag, hto]

def Bus.withRule (s : Bus) (rule : BusMatchRule) : Bus :=
  { (s.setData rule.matchesGoTo fun d => { d with
      matchRules := d.matchRules ++ [s.nextRule], nMatchRules := d.nMatchRules + 1 }) with
    allRules := s.allRules ++ [(s.nextRule, rule)]
    nextRule := s.nextRule + 1 }

theorem Ruled.add (h : Ruled env s) (rule : BusMatchRule)
    (hd : (s.connections rule.matchesGoTo).data.isSome)
    (hl : (s.rulesTo rule.matchesGoTo).length < env.maxMatchRulesPerConnection) :
    Ruled env (s.withRule rule) ∧ (s.withRule rule).ruleBag =
      Function.update s.ruleBag rule.matchesGoTo (rule ::ₘ s.ruleBag rule.matchesGoTo) := by
  have hto : ∀ c, (s.withRule rule).rulesTo c =
      s.rulesTo c ++ if c = rule.matchesGoTo then [(s.nextRule, rule)] else [] := by
    intro c
    by_cases hc : c = rule.matchesGoTo
    · simp [Bus.rulesTo, Bus.withRule, hc]
    · simp [Bus.rulesTo, Bus.withRule, hc, Ne.symm hc]
  obtain ⟨d, hd⟩ := Option.isSome_iff_exists.1 hd
  refine ⟨⟨?_, ?_, fun c => ?_, fun c => ?_⟩, funext fun c => ?_⟩
  · change ((s.allRules ++ [(s.nextRule, rule)]).map (·.1)).Nodup
    rw [map_append, nodup_append]
    refine ⟨h.ids, nodup_singleton _, ?_⟩
    rintro i hi _ hj rfl
    obtain ⟨r, hr, rfl⟩ := mem_map.1 hi
    have := h.fresh r hr
    simp only [map_cons, map_nil, mem_singleton] at hj
    omega
  · intro r hr
    rcases mem_append.1 hr with hr | hr
    · exact (h.fresh r hr).trans (Nat.lt_succ_self _)
    · rw [mem_singleton.1 hr]
      exact Nat.lt_succ_self _
  · have ho := h.own c
    rw [hto]
    by_cases hc : c = rule.matchesGoTo
    · subst hc
      simp only [Bus.ownRules, hd, Option.elim_some, Prod.mk.injEq] at ho
      simp [Bus.ownRules, Bus.withRule, Bus.setData, Bus.setConnection, hd, ho]
    · simpa [Bus.ownRules, Bus.withRule, Bus.setData, Bus.setConnection, hc] using ho
  · rw [hto]
    by_cases hc : c = rule.matchesGoTo
    · simpa [hc, Nat.succ_le_iff] using hl
    · simpa [hc] using h.limit c
  · rw [Bus.ruleBag, hto]
    by_cases hc : c = rule.matchesGoTo
    · subst hc
      simp [Bus.ruleBag, ← Multiset.coe_add, ← Multiset.singleton_add]
      exact Multiset.add_comm _ _
    · simp [Bus.ruleBag, hc]

def Bus.withoutRule (s : Bus) (r : ℕ × BusMatchRule) : Bus :=
  { (s.setData r.2.matchesGoTo fun d => { d with
      matchRules := removeLast r.1 d.matchRules, nMatchRules := d.nMatchRules - 1 }) with
    allRules := s.allRules.filter (·.1 ≠ r.1) }

theorem removeLast_eq {α : Type} [DecidableEq α] {a : α} {l : List α} (h : l.Nodup) :
    removeLast a l = l.erase a := by
  have hr : l.reverse.Nodup := nodup_reverse.2 h
  rw [removeLast, hr.erase_eq_filter, h.erase_eq_filter, filter_reverse, reverse_reverse]

theorem filter_fst_eq (h : (l.map (·.1)).Nodup) (hr : r ∈ l) :
    l.filter (·.1 ≠ r.1) = l.erase r := by
  rw [(List.Nodup.of_map _ h).erase_eq_filter]
  refine filter_congr fun r' hr' => ?_
  by_cases he : r' = r
  · simp [he]
  · have hne : r'.1 ≠ r.1 := fun heq => he (inj_on_of_nodup_map h hr' hr heq)
    simp [he, hne]

theorem Ruled.remove (h : Ruled env s) (hr : r ∈ s.allRules) :
    (∃ d, (s.connections r.2.matchesGoTo).data = some d ∧ 0 < d.nMatchRules) ∧
      Ruled env (s.withoutRule r) ∧ (s.withoutRule r).ruleBag = Function.update s.ruleBag
        r.2.matchesGoTo ((s.ruleBag r.2.matchesGoTo).erase r.2) := by
  have hnd : s.allRules.Nodup := List.Nodup.of_map _ h.ids
  have hal : (s.withoutRule r).allRules = s.allRules.erase r := filter_fst_eq h.ids hr
  have hto : ∀ c, (s.withoutRule r).rulesTo c = (s.rulesTo c).erase r := by
    intro c
    rw [Bus.rulesTo, Bus.rulesTo, hal, hnd.erase_eq_filter, (hnd.filter _).erase_eq_filter,
      filter_filter, filter_filter]
    simp only [Bool.and_comm]
  have hm : r ∈ s.rulesTo r.2.matchesGoTo := mem_filter.2 ⟨hr, by simp⟩
  have ho : ∀ c, c ≠ r.2.matchesGoTo → (s.rulesTo c).erase r = s.rulesTo c := by
    intro c hc
    refine erase_of_not_mem fun hin => hc (Eq.symm ?_)
    simpa using (mem_filter.1 hin).2
  have hsb : ∀ c, (s.rulesTo c).Sublist s.allRules := fun c => filter_sublist
  have how := h.own r.2.matchesGoTo
  obtain ⟨d, hd⟩ : ∃ d, (s.connections r.2.matchesGoTo).data = some d := by
    cases hd : (s.connections r.2.matchesGoTo).data with
    | some d => exact ⟨d, rfl⟩
    | none =>
      rw [Bus.ownRules, hd, Option.elim_none, Prod.mk.injEq] at how
      simp [length_eq_zero_iff.1 how.2.symm] at hm
  simp only [Bus.ownRules, hd, Option.elim_some, Prod.mk.injEq] at how
  refine ⟨⟨d, hd, how.2 ▸ length_pos_of_mem hm⟩, ⟨?_, ?_, fun c => ?_, fun c => ?_⟩,
    funext fun c => ?_⟩
  · rw [hal]
    exact h.ids.sublist (erase_sublist.map _)
  · intro r' hr'
    rw [hal] at hr'
    exact h.fresh r' (mem_of_mem_erase hr')
  · rw [hto]
    by_cases hc : c = r.2.matchesGoTo
    · subst hc
      have hi : ((s.rulesTo r.2.matchesGoTo).map (·.1)).Nodup := h.ids.sublist ((hsb _).map _)
      have her : ((s.rulesTo r.2.matchesGoTo).map (·.1)).erase r.1 =
          ((s.rulesTo r.2.matchesGoTo).erase r).map (·.1) := by
        rw [hi.erase_eq_filter, filter_map, ← filter_fst_eq hi hm]
        congr 1
        exact filter_congr fun r' _ => by by_cases he : r'.1 = r.1 <;> simp [he]
      simp [Bus.ownRules, Bus.withoutRule, Bus.setData, Bus.setConnection, hd, how,
        removeLast_eq hi, her, length_erase_of_mem hm]
    · rw [ho c hc]
      simpa [Bus.ownRules, Bus.withoutRule, Bus.setData, Bus.setConnection, hc] using h.own c
  · rw [hto]
    exact erase_sublist.length_le.trans (h.limit c)
  · rw [Bus.ruleBag, hto]
    by_cases hc : c = r.2.matchesGoTo
    · subst hc
      have hp : s.ruleBag r.2.matchesGoTo =
          r.2 ::ₘ (((s.rulesTo r.2.matchesGoTo).erase r).map (·.2) : List BusMatchRule) :=
        Multiset.coe_eq_coe.2 ((perm_cons_erase hm).map _)
      rw [update_self, hp, Multiset.erase_cons_head]
    · rw [ho c hc, update_of_ne hc]
      rfl

theorem Ruled.sat_removeLink (h : Ruled env s) (hr : r ∈ s.allRules) :
    Sat (strict True) (busMatchmakerRemoveRuleLink r) s (fun _ s' => s' = s.withoutRule r) E := by
  obtain ⟨⟨d, hd, hp⟩, -⟩ := h.remove hr
  refine sat_read_ok (Outcome.valueOr_eq_ok.2 hd) ?_
  exact .next (sat_check (assert_of hp) (sat_modify.2 rfl))

/-! ## The methods -/

theorem Sat.lenient {α : Type} {x : BusM α} {Q : α → Bus → Prop} (h : Sat (strict True) x s Q E) :
    Sat (lenient True) x s Q E := by
  intro fails hf
  have hen := h fails hf
  rcases hx : (x.run s fails).1 with w | ⟨e | a, s'⟩
  · trivial
  · rw [hx] at hen
    exact hen
  · rw [hx] at hen
    exact hen

/-- The rule that a message asks to add or to remove. -/
def BusEnv.ruleIn (env : BusEnv) (c : ℕ) (m : BusMessage) : Option BusMatchRule :=
  match m.body with
  | [.str _ text] => (env.matchRuleParse c text).toOption.map fun r => { r with matchesGoTo := c }
  | _ => none

/-- The rules are those given, and the lists agree. -/
def KeepsRules (env : BusEnv) (bag : ℕ → Multiset BusMatchRule) (s : Bus) : Prop :=
  Ruled env s ∧ s.ruleBag = bag

theorem KeepsRules.same (h : KeepsRules env bag s) (hs : SameRules s s') : KeepsRules env bag s' :=
  ⟨(h.1.same hs).1, (h.1.same hs).2.trans h.2⟩

/-- The rule in a message is parsed, or the call fails and nothing has changed. -/
theorem sat_parse {ty : StringType} {text : List UInt8} {m : BusMessage} {Q : Unit → Bus → Prop}
    {g : BusMatchRule → BusM Unit} (hst : KeepsRules env bag s) (hb : m.body = [.str ty text])
    (h : ∀ rule, env.ruleIn c m = some { rule with matchesGoTo := c } →
      Sat (lenient True) (g rule) s Q fun _ => KeepsRules env bag) :
    Sat (lenient True) (allocate >>= fun _ => ofExcept (env.matchRuleParse c text) >>= g) s Q
      fun _ => KeepsRules env bag := by
  refine .next (sat_allocate ?_ fun _ => hst)
  cases hp : env.matchRuleParse c text with
  | error e => exact .next (.next (sat_allocate (sat_throw.2 hst) fun _ => hst))
  | ok rule =>
    refine .next (sat_pure.2 (h rule ?_))
    rw [BusEnv.ruleIn, hb]
    simp [hp, Except.toOption]

theorem sat_addMatch (h : Ruled env s) (m : BusMessage) :
    Sat (lenient True) (busDriverHandleAddMatch env c t m) s
      (fun _ => KeepsRules env (Function.update s.ruleBag c
        ((env.ruleIn c m).elim (s.ruleBag c) (· ::ₘ s.ruleBag c))))
      fun _ => KeepsRules env s.ruleBag := by
  have hst : KeepsRules env s.ruleBag s := ⟨h, rfl⟩
  refine .next (sat_get.2 (sat_read_bind fun d hd => .ite
    (fun _ => sat_fail (by decide) fun _ _ => hst) fun hl => ?_))
  have hd := of_connectionData hd
  split
  · rename_i _ text hb
    refine sat_parse hst hb fun rule0 hin => ?_
    set rule : BusMatchRule := { rule0 with matchesGoTo := c } with hru
    rw [hin, Option.elim_some]
    refine .next (.next (sat_get.2 (sat_assert_bind fun _ => .next
      (sat_allocate (.next (sat_modify.2 (sat_pure.2 ?_))) fun _ => hst))))
    have ho := h.own c
    simp only [Bus.ownRules, hd, Option.elim_some, Prod.mk.injEq] at ho
    obtain ⟨hrl, hbg⟩ := h.add rule (by simp [hru, hd]) (by
      rw [show rule.matchesGoTo = c from rfl, ← ho.2]
      omega)
    have hrp : LeadsAny True SameRules (s.withRule rule)
      (sendReply env t c m []) := leads_sendReply carries_sameRules.toPosts env c m []
    -- the rule is taken back if the reply cannot be sent
    refine .onError (.mono hrp (fun _ s2 hs => KeepsRules.same ⟨hrl, hbg⟩ hs) ?_)
    rintro e s2 ⟨-, hs⟩
    obtain ⟨hrl2, hbg2⟩ := KeepsRules.same ⟨hrl, hbg⟩ hs
    have hm : (s.nextRule, rule) ∈ s2.allRules := by
      rw [hs.1]
      exact mem_append_right _ (mem_singleton_self _)
    refine Sat.lenient ((hrl2.sat_removeLink hm).imp ?_)
    rintro _ _ rfl
    obtain ⟨-, hrl3, hbg3⟩ := hrl2.remove hm
    refine ⟨hrl3, hbg3.trans ?_⟩
    rw [hbg2, show rule.matchesGoTo = c from rfl, update_self,
      Multiset.erase_cons_head, update_idem, update_eq_self]
  · exact sat_fail (by decide) fun _ _ => hst

theorem argsEqual_iff {as bs : List (Option (List UInt8 × Bool))} (h : as.length = bs.length) :
    argsEqual as bs = true ↔ as = bs := by
  induction as generalizing bs with
  | nil =>
    obtain rfl := length_eq_zero_iff.1 h.symm
    simp [argsEqual]
  | cons a as ih =>
    obtain ⟨b, bs, rfl⟩ := exists_cons_of_length_eq_add_one h.symm
    have hab : a.isSome = b.isSome ∧ argLen a = argLen b ∧
        a.map (·.1.take (argLen a).1) = b.map (·.1.take (argLen a).1) ↔ a = b := by
      refine ⟨fun ⟨hs, hl, ht⟩ => ?_, fun h => by simp [h]⟩
      rcases a with _ | ⟨x, p⟩ <;> rcases b with _ | ⟨y, q⟩
      · rfl
      · cases hs
      · cases hs
      · obtain ⟨hlen, rfl⟩ := Prod.mk.inj hl
        have ht : x.take x.length = y.take x.length := Option.some.inj ht
        rw [take_length, hlen, take_length] at ht
        rw [ht]
    rw [cons.injEq, ← hab, ← ih (Nat.succ.inj h), argsEqual]
    split_ifs <;> simp_all

/-- The comparison field by field decides whether rules are equal. -/
theorem matchRuleEqual_iff {a b : BusMatchRule} : matchRuleEqual a b = true ↔ a = b := by
  refine ⟨fun h => ?_, fun h => ?_⟩
  · simp only [matchRuleEqual, Bool.and_eq_true, decide_eq_true_eq] at h
    obtain ⟨⟨⟨⟨⟨⟨⟨⟨hf, hg⟩, ht⟩, hm⟩, hp⟩, hi⟩, hs⟩, hd⟩, ha⟩ := h
    simp only [BusMatchRule.flags, cons.injEq, and_true] at hf
    obtain ⟨ft, fi, fm, fs, fd, fp, fa⟩ := hf
    -- what has no flag in one rule has none in the other
    have hab : ∀ {α : Type} {x y : Option α}, x.isSome = y.isSome → (x.isSome → x = y) → x = y := by
      intro α x y hs h
      cases x <;> cases y <;> simp_all
    have hargs : a.args = b.args := by
      by_cases h : a.args = []
      · simp_all
      · exact (argsEqual_iff (ha h).1).1 (ha h).2
    obtain ⟨⟩ := a
    obtain ⟨⟩ := b
    simp only [BusMatchRule.mk.injEq]
    exact ⟨hg, hab ft ht, hab fi hi, hab fm hm, hab fs hs, hab fd hd, hab fp hp, hargs⟩
  · subst h
    simp [matchRuleEqual, (argsEqual_iff rfl).2]

theorem findRule_some (h : s.findRule rule = some r) : r ∈ s.allRules ∧ r.2 = rule :=
  by
  have he := find?_some h
  exact ⟨mem_reverse.1 (mem_of_find?_eq_some h), matchRuleEqual_iff.1 he⟩

theorem mem_ruleBag : rule ∈ s.ruleBag rule.matchesGoTo ↔ ∃ r ∈ s.allRules, r.2 = rule := by
  simp only [Bus.ruleBag, Multiset.mem_coe, mem_map, Bus.rulesTo, mem_filter]
  constructor
  · rintro ⟨r, ⟨hr, -⟩, rfl⟩
    exact ⟨r, hr, rfl⟩
  · rintro ⟨r, hr, rfl⟩
    exact ⟨r, ⟨hr, by simp⟩, rfl⟩

theorem Ruled.sat_removeByValue (h : Ruled env s) (rule : BusMatchRule) :
    Sat (strict True) (busMatchmakerRemoveRuleByValue rule) s
      (fun _ s' => rule ∈ s.ruleBag rule.matchesGoTo ∧ KeepsRules env (Function.update s.ruleBag
        rule.matchesGoTo ((s.ruleBag rule.matchesGoTo).erase rule)) s')
      fun _ s' => rule ∉ s.ruleBag rule.matchesGoTo ∧ s' = s := by
  refine .next (sat_get.2 ?_)
  cases hfn : s.findRule rule with
  | some r =>
    obtain ⟨hr, rfl⟩ := findRule_some hfn
    refine (h.sat_removeLink hr).imp ?_
    rintro _ _ rfl
    exact ⟨mem_ruleBag.2 ⟨r, hr, rfl⟩, (h.remove hr).2⟩
  | none =>
    have hnt : rule ∉ s.ruleBag rule.matchesGoTo := by
      rw [mem_ruleBag]
      rintro ⟨r, hr, he⟩
      exact find?_eq_none.1 hfn r (mem_reverse.2 hr) (matchRuleEqual_iff.2 he)
    exact .next (sat_allocate (sat_throw.2 ⟨hnt, rfl⟩) fun _ => ⟨hnt, rfl⟩)

theorem sat_removeMatch (h : Ruled env s) (m : BusMessage) :
    Sat (lenient True) (busDriverHandleRemoveMatch env c t m) s
      (fun _ => KeepsRules env (Function.update s.ruleBag c
        ((env.ruleIn c m).elim (s.ruleBag c) (s.ruleBag c).erase)))
      fun _ => KeepsRules env s.ruleBag := by
  have hst : KeepsRules env s.ruleBag s := ⟨h, rfl⟩
  unfold busDriverHandleRemoveMatch
  split
  · rename_i _ text hb
    refine sat_parse hst hb fun rule0 hin => ?_
    rw [hin, Option.elim_some]
    have hrp : LeadsAny True SameRules s (sendReply env t c m []) :=
      leads_sendReply carries_sameRules.toPosts env c m []
    refine .next (.mono hrp (fun _ s1 hs => ?_) fun _ _ he => hst.same he.2)
    obtain ⟨hrl, hbg⟩ := hst.same hs
    refine Sat.lenient ((hrl.sat_removeByValue _).mono (fun _ s2 hs2 => ?_) ?_)
    · rw [hbg] at hs2
      exact hs2.2
    · rintro _ _ ⟨-, rfl⟩
      exact ⟨hrl, hbg⟩
  · exact sat_fail (by decide) fun _ _ => hst

/-! ## A connection goes -/

def BusMatchRule.Names (rule : BusMatchRule) (name : Option (List UInt8)) : Prop :=
  (rule.sender ≠ none ∧ rule.sender = name) ∨ (rule.destination ≠ none ∧ rule.destination = name)

instance (rule : BusMatchRule) (name : Option (List UInt8)) : Decidable (rule.Names name) := by
  unfold BusMatchRule.Names
  infer_instance

/-- The rules that stay when a connection disconnects that has rules. -/
def Bus.remaining (s : Bus) (c : ℕ) : List (ℕ × BusMatchRule) :=
  s.allRules.filter fun r => r.2.matchesGoTo ≠ c ∧ ¬ r.2.Names (s.connectionName c)

theorem Ruled.sat_removeAll (h : Ruled env s) (hl : l.Nodup) (hsb : ∀ r ∈ l, r ∈ s.allRules) :
    Sat (strict True) (forEach busMatchmakerRemoveRuleLink l) s
      (fun _ s' => Ruled env s' ∧ s'.allRules = s.allRules.filter (· ∉ l)) fun _ _ => False := by
  induction l generalizing s with
  | nil => exact sat_pure.2 ⟨h, by simp⟩
  | cons r l ih =>
    obtain ⟨hnt, hl⟩ := nodup_cons.1 hl
    have hr := hsb r mem_cons_self
    refine .next ((h.sat_removeLink hr).imp ?_)
    rintro _ _ rfl
    have hal : (s.withoutRule r).allRules = s.allRules.erase r := filter_fst_eq h.ids hr
    refine (ih (h.remove hr).2.1 hl fun r' hr' => ?_).imp ?_
    · rw [hal]
      refine (mem_erase_of_ne ?_).2 (hsb r' (mem_cons_of_mem r hr'))
      rintro rfl
      exact hnt hr'
    · rintro _ s' ⟨hrl, hal'⟩
      refine ⟨hrl, ?_⟩
      rw [hal', hal, (List.Nodup.of_map _ h.ids).erase_eq_filter, filter_filter]
      refine filter_congr fun r' _ => ?_
      by_cases he : r' = r <;> simp [he]

theorem Ruled.sat_matchmakerDisconnected (h : Ruled env s) :
    Sat (lenient True) (busMatchmakerDisconnected c) s
      (fun _ s' => Ruled env s' ∧ s'.allRules = s.remaining c) fun _ _ => False := by
  refine .next (sat_get.2 (sat_assert_bind fun _ => ?_))
  have hnd : s.allRules.Nodup := List.Nodup.of_map _ h.ids
  refine Sat.lenient ((h.sat_removeAll (hnd.filter _) fun r hr => (mem_filter.1 hr).1).imp ?_)
  rintro _ s' ⟨hrl, hal⟩
  refine ⟨hrl, hal.trans (filter_congr fun r hr => ?_)⟩
  simp only [mem_filter, hr, true_and, decide_eq_true_eq, BusMatchRule.Names]
  simp only [not_or]

def Bus.rulesWithout (s : Bus) (c : ℕ) : List (ℕ × BusMatchRule) :=
  if s.rulesTo c = [] then s.allRules else s.remaining c

theorem Ruled.sat_leave (h : Ruled env s) (hnn : s.rulesTo c = []) : Sat (lenient True) (do
      let d ← read (·.connectionData c)
      waiting (dropServices env c d.servicesOwned.length)
      busConnectionRemoveTransactions c
      leaveConnections env c
      busConnectionDropPendingReplies c
      modify (·.setConnection c fun x => { x with data := none })) s
      (fun _ s' => Ruled env s' ∧ s'.allRules = s.allRules) fun _ _ => False := by
  have hrm : Always (lenient True) (fun _ => False) SameRules
      (busConnectionRemoveTransactions c) := by
    intro s
    refine leads_read fun d _ => .bind (Always.forEach (fun w _ s1 => ?_) s) fun _ s1 _ => ?_
    · exact .modify ⟨rfl, rfl, rfl⟩
    · exact .modify (sameRules_setData c fun _ => ⟨rfl, rfl⟩)
  have hl : Always (lenient True) (fun _ => False) SameRules (leaveConnections env c) := by
    intro s
    refine leads_read fun d _ => .get (.ite (fun _ => leads_assert_bind fun _ =>
      .modify (refl (r := SameRules) s)) fun _ => leads_assert_bind fun _ => ?_)
    refine .bind (.modify (refl (r := SameRules) s)) fun _ s1 _ => ?_
    cases env.unixUser c with
    | none => exact .pure
    | some uid =>
      exact sat_adjust (.inr fun _ => trivial) (fun _ _ _ => refl (r := SameRules) s1)
        fun _ h => by cases h
  refine sat_read_bind fun d _ => ?_
  have hdr : Leads (lenient False) (MemoryError False) SameRules s
    (dropServices env c d.servicesOwned.length) := always_dropServices_sameRules c _ s
  refine .next (sat_lift.2 (Ends.mono hdr.outcome (fun _ s2 h2 => ?_) fun _ _ he => he.1))
  refine .next (.mono (hrm s2) (fun _ s3 h3 => ?_) fun _ _ he => he.1)
  refine .next (.mono (hl s3) (fun _ s4 h4 => ?_) fun _ _ he => he.1)
  refine .next (sat_modify.2 (sat_modify.2 ?_))
  have hs : SameRules s s4 := trans_of SameRules (trans_of SameRules h2 h3) h4
  obtain ⟨hrl, -⟩ := h.same hs
  have hto : s4.rulesTo c = [] := by rw [Bus.rulesTo, hs.1]; exact hnn
  refine ⟨⟨hrl.ids, hrl.fresh, fun c' => ?_, hrl.limit⟩, hs.1⟩
  change Bus.ownRules _ c' = ((s4.rulesTo c').map (·.1), (s4.rulesTo c').length)
  by_cases hc : c' = c
  · subst hc
    simp [Bus.ownRules, Bus.setConnection, hto]
  · simpa [Bus.ownRules, Bus.setConnection, hc] using hrl.own c'

theorem Ruled.sat_disconnected (h : Ruled env s) :
    Sat (lenient True) (busConnectionDisconnected env c) s
      (fun _ s' => Ruled env s' ∧ s'.allRules = s.rulesWithout c) fun _ _ => False := by
  refine sat_read_bind fun d hd => ?_
  have ho := h.own c
  simp only [Bus.ownRules, of_connectionData hd, Option.elim_some, Prod.mk.injEq] at ho
  refine .ite (fun hp => ?_) fun hz => ?_
  · refine .next (h.sat_matchmakerDisconnected.imp ?_)
    rintro _ s1 ⟨hrl, hal⟩
    have hnn : s1.rulesTo c = [] := by
      rw [Bus.rulesTo, hal, Bus.remaining, filter_filter]
      refine filter_eq_nil_iff.2 fun r _ => ?_
      simp +contextual
    refine (hrl.sat_leave hnn).imp fun _ s' h' => ⟨h'.1, h'.2.trans (hal.trans ?_)⟩
    exact (if_neg (ne_nil_of_length_pos (ho.2 ▸ hp))).symm
  · have hnl : s.rulesTo c = [] := length_eq_zero_iff.1 (by omega)
    exact (h.sat_leave hnl).imp fun _ s' h' => ⟨h'.1, h'.2.trans (if_pos hnl).symm⟩

/-! ## Runs -/

/-- What happens to match rules. -/
inductive MatchEvent where
  | addMatch (connection transaction : ℕ) (message : BusMessage)
  | removeMatch (connection transaction : ℕ) (message : BusMessage)
  | disconnected (connection : ℕ)

def matchStep (env : BusEnv) : MatchEvent → BusM Unit
  | .addMatch c t m => busDriverHandleAddMatch env c t m
  | .removeMatch c t m => busDriverHandleRemoveMatch env c t m
  | .disconnected c => busConnectionDisconnected env c

/-- What an event means for the rules of each connection, with its result.  A connection that
    has rules takes those with it that name it. -/
def rulesAfter (env : BusEnv) (s : Bus) (bag : ℕ → Multiset BusMatchRule) :
    MatchEvent → Except DBusError Unit → ℕ → Multiset BusMatchRule
  | .addMatch c _ m, .ok _ => Function.update bag c ((env.ruleIn c m).elim (bag c) (· ::ₘ bag c))
  | .removeMatch c _ m, .ok _ => Function.update bag c ((env.ruleIn c m).elim (bag c) (bag c).erase)
  | .disconnected c, .ok _ => fun c' =>
    if c' = c then 0
    else if bag c = 0 then bag c'
    else (bag c').filter fun rule => ¬ rule.Names (s.connectionName c)
  | _, .error _ => bag

/-- The runs of the daemon, whatever becomes of the allocations, with the rules that they
    mean; what else happens leaves the rules alone. -/
inductive MatchRun (env : BusEnv) : Bus → (ℕ → Multiset BusMatchRule) → Prop
  | start {s : Bus} : s.allRules = [] → s.ownRules = (fun _ => ([], 0)) →
      MatchRun env s fun _ => 0
  | step {s s' : Bus} {bag : ℕ → Multiset BusMatchRule} (event : MatchEvent) (fails : List Bool)
      {out : Except DBusError Unit} {rest : List Bool} :
      MatchRun env s bag → (matchStep env event).run s fails = (.ok (out, s'), rest) →
      MatchRun env s' (rulesAfter env s bag event out)
  | other {s s' : Bus} {bag : ℕ → Multiset BusMatchRule} :
      MatchRun env s bag → SameRules s s' → MatchRun env s' bag

theorem ruleBag_eq_zero : s.ruleBag c = 0 ↔ s.rulesTo c = [] := by
  simp [Bus.ruleBag]

theorem KeepsRules.disconnected (hal : s'.allRules = s.rulesWithout c) : s'.ruleBag =
    rulesAfter env s s.ruleBag (.disconnected c) (.ok ()) := by
  funext c'
  have hto : s'.rulesTo c' = (s.rulesWithout c).filter (·.2.matchesGoTo = c') := by
    rw [Bus.rulesTo, hal]
  simp only [rulesAfter, ruleBag_eq_zero]
  rw [Bus.ruleBag, hto, Bus.rulesWithout]
  by_cases hnl : s.rulesTo c = []
  · rw [if_pos hnl, if_pos hnl]
    split
    · rename_i hc
      rw [hc, show s.allRules.filter _ = [] from hnl]
      rfl
    · rfl
  · rw [if_neg hnl, if_neg hnl, Bus.remaining, filter_filter]
    split
    · rename_i hc
      have hnn : s.allRules.filter (fun r => decide (r.2.matchesGoTo = c') &&
          decide (r.2.matchesGoTo ≠ c ∧ ¬ r.2.Names (s.connectionName c))) = [] :=
        filter_eq_nil_iff.2 fun r _ => by simp +contextual [hc]
      rw [hnn]
      rfl
    · rename_i hc
      rw [Bus.ruleBag, Multiset.filter_coe, filter_map, Bus.rulesTo, filter_filter]
      congr 2
      refine filter_congr fun r _ => ?_
      by_cases hr : r.2.matchesGoTo = c'
      · simp [hr, hc]
      · simp [hr]

theorem KeepsRules.step (h : KeepsRules env bag s) (event : MatchEvent) :
    Sat (lenient True) (matchStep env event) s
      (fun u => KeepsRules env (rulesAfter env s bag event (.ok u)))
      fun _ => KeepsRules env bag := by
  obtain ⟨hrl, rfl⟩ := h
  cases event with
  | addMatch c t m => exact sat_addMatch hrl m
  | removeMatch c t m => exact sat_removeMatch hrl m
  | disconnected c =>
    exact hrl.sat_disconnected.mono (fun _ s' h' => ⟨h'.1, KeepsRules.disconnected h'.2⟩)
      fun _ _ => False.elim

theorem MatchRun.keeps (h : MatchRun env s bag) : KeepsRules env bag s := by
  induction h with
  | @start s hal ho =>
    have hto : ∀ c, s.rulesTo c = [] := fun c => by rw [Bus.rulesTo, hal]; rfl
    refine ⟨⟨by simp [hal], by simp [hal], fun c => by rw [ho, hto]; rfl, fun c => ?_⟩, ?_⟩
    · rw [hto]
      exact Nat.zero_le _
    · funext c
      simp [Bus.ruleBag, hto]
  | step event fails _ hrn ih =>
    rcases (ih.step event).run_ok trivial hrn with ⟨_, rfl, h'⟩ | ⟨_, rfl, h'⟩
    · exact h'
    · cases event <;> exact h'
  | other _ hs ih => exact ih.same hs

/-- **The rules of a connection** are those that it has added and that have not been removed
    or dropped; its list and its number agree and stay within the limit; and removing a rule
    removes one that is equal, or fails because there is none. -/
theorem rules_are_kept (env : BusEnv) (s : Bus) (bag : ℕ → Multiset BusMatchRule)
    (h : MatchRun env s bag) :
    (∀ c, s.ruleBag c = bag c) ∧
    (∀ c d, (s.connections c).data = some d → d.matchRules = (s.rulesTo c).map (·.1) ∧
      d.nMatchRules = Multiset.card (bag c) ∧ d.nMatchRules ≤ env.maxMatchRulesPerConnection) ∧
    ∀ rule : BusMatchRule,
      (rule ∈ bag rule.matchesGoTo →
        ∃ s', (busMatchmakerRemoveRuleByValue rule).outcome s = .ok (.ok (), s') ∧
          s'.ruleBag = Function.update bag rule.matchesGoTo ((bag rule.matchesGoTo).erase rule)) ∧
      (rule ∉ bag rule.matchesGoTo →
        ∃ e, (busMatchmakerRemoveRuleByValue rule).outcome s = .ok (.error e, s)) := by
  obtain ⟨hrl, rfl⟩ := h.keeps
  refine ⟨fun _ => rfl, fun c d hd => ?_, fun rule => ?_⟩
  · have ho := hrl.own c
    simp only [Bus.ownRules, hd, Option.elim_some, Prod.mk.injEq] at ho
    refine ⟨ho.1, ?_, ho.2 ▸ hrl.limit c⟩
    rw [ho.2, Bus.ruleBag, Multiset.coe_card, length_map]
  · have hen := Sat.outcome (hrl.sat_removeByValue rule)
    rcases hot : (busMatchmakerRemoveRuleByValue rule).outcome s with w | ⟨e | u, s'⟩
    · rw [hot] at hen
      exact hen.elim
    · rw [hot] at hen
      obtain ⟨hnt, rfl⟩ : _ ∧ s' = s := hen
      exact ⟨fun hin => absurd hin hnt, fun _ => ⟨e, rfl⟩⟩
    · rw [hot] at hen
      obtain ⟨hin, -, hb⟩ := hen
      exact ⟨fun _ => ⟨s', rfl, hb⟩, fun hnt => absurd hin hnt⟩

end

/-- The environment with the parser of match rules. -/
def BusEnv.parsing (env : BusEnv) (lib : CLib) : BusEnv :=
  { env with
    matchRuleParse := fun c text => match busMatchRuleParse lib c text with
      | .ok (.ok rule) => .ok rule
      | .ok (.error e) => .error (if h : e.name ≠ .noMemory then ⟨e, h⟩ else ⟨⟨.failed, []⟩, by simp⟩)
      | .error _ => .error ⟨⟨.failed, []⟩, by simp⟩ }

/-- A message asks for the rule that the parser makes of its argument. -/
theorem ruleIn_parsing (env : BusEnv) (lib : CLib) (c : ℕ) (m : BusMessage) (rule : BusMatchRule) :
    (env.parsing lib).ruleIn c m = some rule ↔ ∃ s text rule0, m.body = [.str s text] ∧
      busMatchRuleParse lib c text = .ok (.ok rule0) ∧ { rule0 with matchesGoTo := c } = rule := by
  unfold BusEnv.ruleIn
  split
  · next s text hb =>
    simp only [hb, cons.injEq, Value.str.injEq, and_true, and_assoc, exists_and_left, exists_eq_left',
      BusEnv.parsing]
    rcases busMatchRuleParse lib c text with w | e | rule0 <;> simp [Except.toOption]
  · next hb =>
    refine iff_of_false (by simp) ?_
    rintro ⟨s, text, -, h, -⟩
    exact hb s text h

/-- An environment with that parser. -/
def watchingEnv : BusEnv := openEnv.parsing decimalLib

/-- Two connections with names, and an open transaction. -/
def twoPeers : Bus :=
  { Bus.empty with
    connections := fun c => ⟨true, some { BusConnectionData.new with
      name := some (if c = 0 then asciiBytes ":1.0" else asciiBytes ":1.1") }, []⟩
    nextConnection := 2
    completed := [0, 1]
    nCompleted := 2
    transactions := fun _ => some ⟨[], [], []⟩ }

/-- A call that asks for the messages of the first connection. -/
def watchCall : BusMessage :=
  { type := .methodCall, serial := 1, body := [.text (asciiBytes "sender=':1.0'")] }

theorem twoPeers_run : MatchRun watchingEnv twoPeers fun _ => 0 := .start rfl rfl

/-- A rule is added twice. -/
theorem rules_are_kept_twice : ∃ s bag, MatchRun watchingEnv s bag ∧
    Multiset.card (s.ruleBag 1) = 2 := by
  have hrn := (twoPeers_run.step (.addMatch 1 0 watchCall) [] rfl).step
    (.addMatch 1 0 watchCall) [] rfl
  exact ⟨_, _, hrn, by rw [(rules_are_kept _ _ _ hrn).1]; rfl⟩

section
/-- No rule belongs to a connection or names it, and what the connections have agrees with the
    list of the matchmaker. -/
def Bus.FreeOf (s : Bus) (c : ℕ) (name : Option (List UInt8)) : Prop :=
  (∀ r ∈ s.allRules, r.2.matchesGoTo ≠ c ∧ ¬ r.2.Names name) ∧
    ∀ c' d, (s.connections c').data = some d →
      d.matchRules = (s.rulesTo c').map (·.1) ∧ d.nMatchRules = (s.rulesTo c').length

/-- **Disconnecting leaves no rule** that belongs to the connection or names it if and only if
    the connection has a rule, or none names it. -/
theorem disconnected_drops_iff (env : BusEnv) (s s' : Bus) (bag : ℕ → Multiset BusMatchRule) (c : ℕ)
    (fails rest : List Bool) (out : Except DBusError Unit) (h : MatchRun env s bag)
    (hrun : (busConnectionDisconnected env c).run s fails = (.ok (out, s'), rest)) :
    s'.FreeOf c (s.connectionName c) ↔
      (∃ r ∈ s.allRules, r.2.matchesGoTo = c) ∨
        ∀ r ∈ s.allRules, ¬ r.2.Names (s.connectionName c) := by
  rcases h.keeps.1.sat_disconnected.run_ok trivial hrun with ⟨_, -, hrl, hal⟩ | ⟨_, -, h'⟩
  · have hag : ∀ c' d, (s'.connections c').data = some d →
        d.matchRules = (s'.rulesTo c').map (·.1) ∧ d.nMatchRules = (s'.rulesTo c').length := by
      intro c' d hd
      simpa [Bus.ownRules, hd] using hrl.own c'
    have hm : (∃ r ∈ s.allRules, r.2.matchesGoTo = c) ↔ s.rulesTo c ≠ [] := by simp [Bus.rulesTo]
    rw [Bus.FreeOf, hal, Bus.rulesWithout, hm]
    by_cases hnl : s.rulesTo c = []
    · have hnn : ∀ r ∈ s.allRules, r.2.matchesGoTo ≠ c := by simpa [Bus.rulesTo] using hnl
      rw [if_pos hnl]
      refine ⟨fun hfr => .inr fun r hr => (hfr.1 r hr).2, fun hor => ⟨fun r hr => ?_, hag⟩⟩
      exact ⟨hnn r hr, hor.resolve_left (fun hne => hne hnl) r hr⟩
    · rw [if_neg hnl]
      refine iff_of_true ⟨fun r hr => ?_, hag⟩ (.inl hnl)
      simpa using (mem_filter.1 hr).2
  · exact h'.elim

end

/-- The first connection has a rule itself, so that the rule of the second goes with it. -/
theorem disconnected_drops_both : ∃ s s' bag out rest, MatchRun watchingEnv s bag ∧
    (busConnectionDisconnected watchingEnv 0).run s [] = (.ok (out, s'), rest) ∧
      s.allRules.length = 2 ∧ s'.FreeOf 0 (s.connectionName 0) := by
  have hrn := (twoPeers_run.step (.addMatch 0 0 watchCall) [] rfl).step
    (.addMatch 1 0 watchCall) [] rfl
  refine ⟨_, _, _, _, _, hrn, rfl, rfl, ?_⟩
  exact (disconnected_drops_iff _ _ _ _ 0 [] _ _ hrn rfl).2 (.inl ⟨_, mem_cons_self, rfl⟩)

/-- The first connection has no rule: the rule of the second that names it stays. -/
theorem disconnected_keeps_rule : ∃ s s' bag out rest, MatchRun watchingEnv s bag ∧
    (busConnectionDisconnected watchingEnv 0).run s [] = (.ok (out, s'), rest) ∧
      ¬ s'.FreeOf 0 (s.connectionName 0) := by
  have hrn := twoPeers_run.step (.addMatch 1 0 watchCall) [] rfl
  refine ⟨_, _, _, _, _, hrn, rfl, fun hfr => ?_⟩
  refine (hfr.1 _ mem_cons_self).2 (.inl ⟨?_, rfl⟩)
  rintro ⟨⟩

end DBus
