/-
  Who gets a broadcast: `bus_matchmaker_get_recipients` with its stamps.

  A call begins by raising a counter; a connection is new to the call if the stamp with which
  it was last marked is another one.  Both are of type `int`.  In a run with fewer than 2^31
  calls no connection has a stamp that the counter has not reached yet (`StampsFresh`).
-/
import DBus.Bus.Send

namespace DBus

open Outcome List

/-! ## Stamps -/

/-- The stamp of `BusConnections`, and that of each connection that has data. -/
structure BusStamps where
  stamp : Int32
  marked : ℕ → Option Int32

namespace BusStamps

/-- `bus_connections_new` -/
def new : BusStamps := ⟨0, fun _ => none⟩

section
variable (st : BusStamps)

/-- The data of a connection come, go or get another stamp. -/
def set (c : ℕ) (s : Option Int32) : BusStamps :=
  { st with marked := Function.update st.marked c s }

@[simp] theorem set_self (c : ℕ) (s : Option Int32) : (st.set c s).marked c = s :=
  Function.update_self ..

theorem set_ne {c c' : ℕ} (h : c' ≠ c) (s : Option Int32) :
    (st.set c s).marked c' = st.marked c' := Function.update_of_ne h ..

/-- `bus_connections_increment_stamp` -/
def increment : BusStamps := { st with stamp := st.stamp + 1 }

/-- `bus_connection_mark_stamp` -/
def mark (connection : ℕ) : Res (Bool × BusStamps) := do
  let s ← valueOr .assertion (st.marked connection)
  if s = st.stamp then return (false, st)
  else return (true, st.set connection (some st.stamp))

end

end BusStamps

/-- The loop of `bus_matchmaker_get_recipients` over the rules. -/
def recipientsLoop (bus : Bus) (sender addressed : Option ℕ) (message : BusMessage) :
    List (ℕ × BusMatchRule) → BusStamps → Res (List ℕ × BusStamps)
  | [], st => .ok ([], st)
  | (_, rule) :: rules, st =>
    if bus.matchRuleMatches rule sender addressed message then do
      let (fresh, st) ← st.mark rule.matchesGoTo
      let (recipients, st) ← recipientsLoop bus sender addressed message rules st
      return (if fresh then rule.matchesGoTo :: recipients else recipients, st)
    else recipientsLoop bus sender addressed message rules st

/-- The addressed recipient gets the message anyway. -/
def BusStamps.markAddressed (st : BusStamps) : Option ℕ → Res BusStamps
  | some recipient => do
    let (_, st) ← st.mark recipient
    return st
  | none => .ok st

/-- `bus_matchmaker_get_recipients`, if there is memory: else the list is dropped and the caller
    fails. -/
def busMatchmakerGetRecipients (bus : Bus) (sender addressed : Option ℕ) (message : BusMessage)
    (st : BusStamps) : Res (List ℕ × BusStamps) := do
  let st ← st.increment.markAddressed addressed
  recipientsLoop bus sender addressed message bus.allRules st

/-- What happens to the stamps in a run of the daemon. -/
inductive StampEvent where
  /-- a connection gets its data -/
  | connected (connection : ℕ)
  /-- a connection loses its data -/
  | disconnected (connection : ℕ)
  /-- the recipients of a message are looked for -/
  | getRecipients (bus : Bus) (sender addressed : Option ℕ) (message : BusMessage)

def stampStep (st : BusStamps) : StampEvent → Res BusStamps
  | .connected c => .ok (st.set c (some 0))
  | .disconnected c => .ok (st.set c none)
  | .getRecipients bus sender addressed message => do
    let (_, st) ← busMatchmakerGetRecipients bus sender addressed message st
    return st

def stampRun : List StampEvent → BusStamps → Res BusStamps
  | [], st => .ok st
  | e :: es, st => do
    let st ← stampStep st e
    stampRun es st

def StampEvent.isCall : StampEvent → Bool
  | .getRecipients .. => true
  | _ => false

/-! ## The counter in a run -/

/-- After `k` calls the counter is `k`, and no connection has a higher stamp. -/
structure StampsFresh (st : BusStamps) (k : ℕ) : Prop where
  stamp : st.stamp.toInt = k
  marked : ∀ c s, st.marked c = some s → 0 ≤ s.toInt ∧ s.toInt ≤ k

section
variable {st st' : BusStamps} {k c : ℕ} {bus : Bus} {sender addressed : Option ℕ}
  {message : BusMessage} {rules : List (ℕ × BusMatchRule)} {marked : List ℕ}

theorem stampsFresh_new : StampsFresh .new 0 := ⟨rfl, nofun⟩

section
variable (h : StampsFresh st k) {l : List ℕ}
include h

theorem StampsFresh.set {v : Option Int32} (hv : ∀ s, v = some s → 0 ≤ s.toInt ∧ s.toInt ≤ k) :
    StampsFresh (st.set c v) k := by
  refine ⟨h.stamp, fun c' s hs => ?_⟩
  by_cases hc : c' = c
  · subst hc
    rw [BusStamps.set_self] at hs
    exact hv s hs
  · rw [BusStamps.set_ne st hc] at hs
    exact h.marked c' s hs

theorem StampsFresh.mark {b : Bool} (hm : st.mark c = .ok (b, st')) : StampsFresh st' k := by
  rw [BusStamps.mark, bind_eq_ok] at hm
  obtain ⟨s, -, hm⟩ := hm
  split at hm
  · cases hm
    exact h
  · cases hm
    refine h.set fun s hs => ?_
    cases hs
    rw [h.stamp]
    exact ⟨Int.natCast_nonneg k, le_refl _⟩

theorem StampsFresh.markAddressed (hm : st.markAddressed addressed = .ok st') :
    StampsFresh st' k := by
  cases addressed with
  | none =>
    cases hm
    exact h
  | some r =>
    obtain ⟨⟨b, st2⟩, hm, hst2⟩ := bind_eq_ok.1 hm
    cases hst2
    exact h.mark hm

theorem StampsFresh.recipientsLoop
    (hl : recipientsLoop bus sender addressed message rules st = .ok (l, st')) :
    StampsFresh st' k := by
  induction rules generalizing st l with
  | nil =>
    cases hl
    exact h
  | cons r rules ih =>
    obtain ⟨n, rule⟩ := r
    rw [DBus.recipientsLoop] at hl
    split at hl
    · rw [bind_eq_ok] at hl
      obtain ⟨⟨b, st1⟩, hm, hl⟩ := hl
      rw [bind_eq_ok] at hl
      obtain ⟨⟨l', st2⟩, hrs, hl⟩ := hl
      cases hl
      exact ih (h.mark hm) hrs
    · exact ih h hl

theorem StampsFresh.increment (hk : k + 1 < 2 ^ 31) : StampsFresh st.increment (k + 1) := by
  refine ⟨?_, fun c s hs => ?_⟩
  · have ho : (1 : Int32).toInt = 1 := rfl
    rw [BusStamps.increment, Int32.toInt_add, h.stamp, ho, Int.bmod_eq_of_le]
    · rfl
    · omega
    · omega
  · have := h.marked c s hs
    omega

theorem StampsFresh.getRecipients (hk : k + 1 < 2 ^ 31)
    (hl : busMatchmakerGetRecipients bus sender addressed message st = .ok (l, st')) :
    StampsFresh st' (k + 1) := by
  rw [busMatchmakerGetRecipients, bind_eq_ok] at hl
  obtain ⟨st1, hst1, hl⟩ := hl
  exact ((h.increment hk).markAddressed hst1).recipientsLoop hl

theorem StampsFresh.step {e : StampEvent} (hk : k + [e].countP StampEvent.isCall < 2 ^ 31)
    (hs : stampStep st e = .ok st') : StampsFresh st' (k + [e].countP StampEvent.isCall) := by
  cases e with
  | connected c =>
    cases hs
    refine h.set fun s hs => ?_
    cases hs
    exact ⟨le_refl _, Int.natCast_nonneg k⟩
  | disconnected c =>
    cases hs
    exact h.set nofun
  | getRecipients bus sender addressed message =>
    rw [stampStep, bind_eq_ok] at hs
    obtain ⟨⟨l, st1⟩, hl, hs⟩ := hs
    cases hs
    exact h.getRecipients hk hl

theorem StampsFresh.run {es : List StampEvent} (hk : k + es.countP StampEvent.isCall < 2 ^ 31)
    (hs : stampRun es st = .ok st') : StampsFresh st' (k + es.countP StampEvent.isCall) := by
  induction es generalizing st k with
  | nil =>
    cases hs
    exact h
  | cons e es ih =>
    rw [stampRun, bind_eq_ok] at hs
    obtain ⟨st1, hst1, hs⟩ := hs
    have hsp : (e :: es).countP StampEvent.isCall =
        [e].countP StampEvent.isCall + es.countP StampEvent.isCall := by
      rw [← countP_append, singleton_append]
    rw [hsp, ← Nat.add_assoc] at hk ⊢
    exact ih (h.step (by omega) hst1) hk hs

end

/-! ## What a call returns -/

/-- The connections that have been marked in a call. -/
def Marks (st : BusStamps) (marked : List ℕ) : Prop :=
  ∀ c, st.marked c = some st.stamp ↔ c ∈ marked

theorem StampsFresh.marks_increment (h : StampsFresh st k) (hk : k + 1 < 2 ^ 31) : Marks st.increment [] := by
  intro c
  simp only [not_mem_nil, iff_false]
  intro hc
  have hle := (h.marked c _ hc).2
  rw [(h.increment hk).stamp] at hle
  omega

theorem Marks.mark (h : Marks st marked) (hc : st.marked c ≠ none) :
    ∃ st', st.mark c = .ok (decide (c ∉ marked), st') ∧ Marks st' (c :: marked) ∧
      ∀ c', st'.marked c' = none ↔ st.marked c' = none := by
  obtain ⟨s, hs⟩ := Option.ne_none_iff_exists'.1 hc
  by_cases he : s = st.stamp
  · have hm : c ∈ marked := (h c).1 (by rw [hs, he])
    refine ⟨st, ?_, fun c' => ?_, fun _ => Iff.rfl⟩
    · rw [BusStamps.mark, hs, valueOr_some, ok_bind, if_pos he]
      simp [hm]
    · rw [h c', mem_cons]
      refine ⟨.inr, ?_⟩
      rintro (rfl | hc')
      · exact hm
      · exact hc'
  · have hm : c ∉ marked := by
      intro hm
      have := (h c).2 hm
      rw [hs] at this
      cases this
      exact he rfl
    refine ⟨st.set c (some st.stamp), ?_, fun c' => ?_, fun c' => ?_⟩
    · rw [BusStamps.mark, hs, valueOr_some, ok_bind, if_neg he]
      simp [hm]
    · change (st.set c (some st.stamp)).marked c' = some st.stamp ↔ _
      by_cases hc' : c' = c
      · subst hc'
        simp
      · rw [BusStamps.set_ne st hc', h c']
        simp [hc']
    · by_cases hc' : c' = c
      · subst hc'
        simp [hs]
      · rw [BusStamps.set_ne st hc']

section
variable (bus : Bus) (sender addressed : Option ℕ) (message : BusMessage)

theorem recipientsLoop_eq (h : Marks st marked)
    (hdt : ∀ r ∈ rules, st.marked r.2.matchesGoTo ≠ none) :
    ∃ st', recipientsLoop bus sender addressed message rules st =
      .ok (bus.recipients sender addressed message rules marked, st') := by
  induction rules generalizing st marked with
  | nil => exact ⟨st, rfl⟩
  | cons r rules ih =>
    obtain ⟨n, rule⟩ := r
    obtain ⟨hru, hrl⟩ := forall_mem_cons.1 hdt
    rw [recipientsLoop, Bus.recipients]
    by_cases hm : bus.matchRuleMatches rule sender addressed message = true
    · obtain ⟨st1, hma, hmr, hsm⟩ := h.mark hru
      by_cases hin : rule.matchesGoTo ∈ marked
      · -- the connection has been found before, so marking it once more changes nothing
        have hmr' : Marks st1 marked := by
          intro c
          rw [hmr c, mem_cons]
          refine ⟨?_, .inr⟩
          rintro (rfl | hc)
          · exact hin
          · exact hc
        obtain ⟨st', hst'⟩ := ih hmr' fun r hr => (hsm _).not.2 (hrl r hr)
        refine ⟨st', ?_⟩
        rw [if_pos hm, hma, ok_bind]
        simp [hst', hin]
      · obtain ⟨st', hst'⟩ := ih hmr fun r hr => (hsm _).not.2 (hrl r hr)
        refine ⟨st', ?_⟩
        rw [if_pos hm, hma, ok_bind]
        simp [hst', hin, hm]
    · obtain ⟨st', hst'⟩ := ih h hrl
      refine ⟨st', ?_⟩
      rw [if_neg hm, if_neg (by simp [hm]), hst']

/-- The place of the first matching rule of a connection. -/
def Bus.firstMatch (rules : List (ℕ × BusMatchRule)) (c : ℕ) : ℕ :=
  rules.findIdx fun r => bus.matchRuleMatches r.2 sender addressed message && r.2.matchesGoTo = c

end

theorem mem_recipients : c ∈ bus.recipients sender addressed message rules marked ↔ c ∉ marked ∧
      ∃ r ∈ rules, r.2.matchesGoTo = c ∧ bus.matchRuleMatches r.2 sender addressed message = true := by
  induction rules generalizing marked with
  | nil => simp [Bus.recipients]
  | cons r rules ih =>
    obtain ⟨n, rule⟩ := r
    rw [Bus.recipients]
    split
    · rename_i h
      rw [mem_cons, ih, mem_cons, exists_mem_cons_iff]
      by_cases hc : c = rule.matchesGoTo
      · subst hc
        simp [h]
      · have hc' : ¬ rule.matchesGoTo = c := fun he => hc he.symm
        simp [hc, hc']
    · rename_i h
      rw [ih, exists_mem_cons_iff]
      refine and_congr_right fun hc => ?_
      have : ¬ (rule.matchesGoTo = c ∧ bus.matchRuleMatches rule sender addressed message = true) := by
        rintro ⟨rfl, hm⟩
        exact h ⟨hm, hc⟩
      simp [this]

theorem pairwise_recipients (marked : List ℕ) :
    (bus.recipients sender addressed message rules marked).Pairwise fun c c' =>
      bus.firstMatch sender addressed message rules c <
        bus.firstMatch sender addressed message rules c' := by
  induction rules generalizing marked with
  | nil => exact List.Pairwise.nil
  | cons r rules ih =>
    obtain ⟨n, rule⟩ := r
    -- the head of the rules is not the first match of a later recipient
    have hsh : ∀ marked', (bus.matchRuleMatches rule sender addressed message = true →
          rule.matchesGoTo ∈ marked') →
        ∀ c ∈ bus.recipients sender addressed message rules marked',
          bus.firstMatch sender addressed message ((n, rule) :: rules) c =
            bus.firstMatch sender addressed message rules c + 1 := by
      intro marked' hh c hc
      have hne : (bus.matchRuleMatches rule sender addressed message &&
          decide (rule.matchesGoTo = c)) = false := by
        rw [Bool.and_eq_false_iff, decide_eq_false_iff_not]
        by_cases hm : bus.matchRuleMatches rule sender addressed message = true
        · right
          rintro rfl
          exact (mem_recipients.1 hc).1 (hh hm)
        · left
          simpa using hm
      simp [Bus.firstMatch, findIdx_cons, hne]
    have htl : ∀ marked', (bus.matchRuleMatches rule sender addressed message = true →
          rule.matchesGoTo ∈ marked') →
        (bus.recipients sender addressed message rules marked').Pairwise fun c c' =>
          bus.firstMatch sender addressed message ((n, rule) :: rules) c <
            bus.firstMatch sender addressed message ((n, rule) :: rules) c' := by
      intro marked' hh
      refine (ih marked').imp_of_mem fun {c c'} hc hc' hlt => ?_
      rw [hsh marked' hh c hc, hsh marked' hh c' hc']
      omega
    rw [Bus.recipients]
    split
    · rename_i h
      have hh : bus.matchRuleMatches rule sender addressed message = true →
          rule.matchesGoTo ∈ rule.matchesGoTo :: marked := fun _ => mem_cons_self
      refine pairwise_cons.2 ⟨fun c hc => ?_, htl _ hh⟩
      rw [hsh _ hh c hc, Bus.firstMatch, findIdx_cons]
      simp [h.1]
    · rename_i h
      refine htl marked fun hm => ?_
      by_contra hin
      exact h ⟨hm, hin⟩

/-- In a run with fewer than 2^31 calls, a call returns the connections with a matching rule other
    than the addressed recipient, each once, in the order of their first matching rules. -/
theorem getRecipients_exact (es : List StampEvent) {st : BusStamps} (hrun : stampRun es .new = .ok st)
    (hcalls : es.countP StampEvent.isCall + 1 < 2 ^ 31) (bus : Bus) (sender addressed : Option ℕ)
    (message : BusMessage) (hrules : ∀ r ∈ bus.allRules, st.marked r.2.matchesGoTo ≠ none)
    (haddressed : ∀ c ∈ addressed, st.marked c ≠ none) :
    ∃ l st', busMatchmakerGetRecipients bus sender addressed message st = .ok (l, st') ∧
      l.Nodup ∧
      (∀ c, c ∈ l ↔ addressed ≠ some c ∧ ∃ r ∈ bus.allRules, r.2.matchesGoTo = c ∧
        bus.matchRuleMatches r.2 sender addressed message = true) ∧
      l.Pairwise fun c c' => bus.firstMatch sender addressed message bus.allRules c <
        bus.firstMatch sender addressed message bus.allRules c' := by
  have hfr : StampsFresh st (es.countP StampEvent.isCall) := by
    have := stampsFresh_new.run (by omega) hrun
    rwa [Nat.zero_add] at this
  -- after the addressed recipient has been marked, nobody else is
  obtain ⟨st₁, hst₁, hm, hsm⟩ : ∃ st₁, st.increment.markAddressed addressed = .ok st₁ ∧
      Marks st₁ addressed.toList ∧ ∀ c, st₁.marked c = none ↔ st.marked c = none := by
    have hnn := hfr.marks_increment hcalls
    cases addressed with
    | none => exact ⟨_, rfl, hnn, fun _ => Iff.rfl⟩
    | some r =>
      obtain ⟨st₁, hmr, hm, hsm⟩ := hnn.mark (c := r) (haddressed r rfl)
      refine ⟨st₁, ?_, hm, hsm⟩
      simp [BusStamps.markAddressed, hmr]
  obtain ⟨st', hl⟩ := recipientsLoop_eq bus sender addressed message hm
    fun r hr => (hsm _).not.2 (hrules r hr)
  refine ⟨bus.recipients sender addressed message bus.allRules addressed.toList, st', ?_, ?_,
    fun c => ?_, pairwise_recipients _⟩
  · rw [busMatchmakerGetRecipients, hst₁, ok_bind]
    exact hl
  · exact (pairwise_recipients _).imp fun hlt he => absurd hlt (by rw [he]; exact Nat.lt_irrefl _)
  · rw [mem_recipients, Option.mem_toList]

end

/-- Two connections, the second of which has two rules: it is found once, and first. -/
theorem getRecipients_two :
    ∃ st, stampRun [.connected 0, .connected 1] .new = .ok st ∧ ∃ l st',
      busMatchmakerGetRecipients { Bus.empty with
          allRules := [(0, { matchesGoTo := 1 }), (1, { matchesGoTo := 0 }), (2, { matchesGoTo := 1 })] }
        none none { type := .signal } st = .ok (l, st') ∧ l = [1, 0] ∧ l.Nodup := by
  refine ⟨(BusStamps.new.set 0 (some 0)).set 1 (some 0), rfl, ?_⟩
  obtain ⟨l, st', hl, hnd, -⟩ := getRecipients_exact [.connected 0, .connected 1] rfl (by decide)
    { Bus.empty with
      allRules := [(0, { matchesGoTo := 1 }), (1, { matchesGoTo := 0 }), (2, { matchesGoTo := 1 })] }
    none none { type := .signal } (by decide) nofun
  have hv : Except.ok [1, 0] = (.ok l : Res (List ℕ)) := congrArg (Except.map Prod.fst) hl
  exact ⟨l, st', hl, (Except.ok.inj hv).symm, hnd⟩

end DBus
