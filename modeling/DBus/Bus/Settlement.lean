/-
  Calls that wait for a reply: what becomes of them in a run.

  `Transacts` is what whole transactions do to pending replies.  In the runs in which no
  requested reply is refused (`BusEvent.LetsReplies`) a pending reply leaves the list only
  when an answer has been queued for the caller, or when the caller is gone.
-/
import DBus.Bus.Replies

namespace DBus

open BusM Eff List Option Function

/-- Between two states, an answer has been queued for the caller, or the caller is gone. -/
def Settled (s s' : Bus) (r : BusPendingReply) : Prop :=
  s'.isConnected r.willGetReply = false ∨
    ∃ m ∈ ((s'.connections r.willGetReply).outgoing.drop
      (s.connections r.willGetReply).outgoing.length), s'.Answers r m

/-- No requested reply is refused when this happens. -/
def BusEvent.LetsReplies : BusEvent → Prop
  | .message env _ m => LetsRepliesPass env ∧ m.Proper
  | .expired env _ => LetsRepliesPass env
  | _ => True

/-! ## Whole transactions -/

/-- Between two transactions no message waits. -/
structure Idle (s : Bus) : Prop extends Kept s where
  empty : ∀ c d, (s.connections c).data = some d → d.transactionMessages = []

/-- What the execution of the transaction `t` does with the connections `rest` still to do. -/
structure Executing (t : ℕ) (s : Bus) (rest : List ℕ) (s' : Bus) : Prop where
  pendingReplies : s'.pendingReplies = s.pendingReplies
  activation : s'.activation = s.activation
  nextConnection : s'.nextConnection = s.nextConnection
  connected : ∀ c, (s'.connections c).connected = (s.connections c).connected
  names : ∀ c, (s'.connections c).data.map (·.name) = (s.connections c).data.map (·.name)
  outgoing : ∀ c, (s.connections c).outgoing <+: (s'.connections c).outgoing
  waiting : ∀ c d, (s'.connections c).data = some d → ∀ w ∈ d.transactionMessages,
    w.transaction = t ∧ c ∈ rest
  sent : ∀ c m, s.Holds t c m → s'.Holds t c m ∨
    m ∈ (s'.connections c).outgoing.drop (s.connections c).outgoing.length

/-- What whole transactions do: a pending reply is still there, or is settled. -/
structure Settles (s s' : Bus) : Prop extends Later s s' where
  replies : ∀ r ∈ s.pendingReplies, r ∈ s'.pendingReplies ∨ Settled s s' r
  outgoing : ∀ c, (s.connections c).outgoing <+: (s'.connections c).outgoing

/-- What whole transactions do, from a state in which no message waits. -/
def Transacts (s s' : Bus) : Prop := Idle s → Idle s' ∧ Settles s s'

section
variable {t : ℕ} {s s' s'' : Bus} {r : BusPendingReply} {oom : Prop} {N : DBusError → Prop} {c : ℕ}
  {env : BusEnv} {m : BusMessage} {event : BusEvent}

theorem Settles.trans (h : Settles s s') (h' : Settles s' s'') : Settles s s'' := by
  refine ⟨h.toLater.trans h'.toLater, fun r hr => ?_,
    fun c => (h.outgoing c).trans (h'.outgoing c)⟩
  rcases h.replies r hr with hin | hls | ⟨m, hm, ha⟩
  · refine (h'.replies r hin).imp_right (.imp_right ?_)
    rintro ⟨m, hm, ha⟩
    obtain ⟨k, hk⟩ := Nat.exists_eq_add_of_le (h.outgoing r.willGetReply).length_le
    rw [hk, ← drop_drop] at hm
    exact ⟨m, mem_of_mem_drop hm, ha⟩
  · exact .inr (.inl (h'.lost _ hls))
  · refine .inr (.inr ⟨m, ?_, ha.mono h'.toLater⟩)
    obtain ⟨l, hl⟩ := h'.outgoing r.willGetReply
    rw [← hl, drop_append]
    exact mem_append_left _ hm

instance : IsPreorder Bus Transacts where
  refl s h := ⟨h, .rfl, fun _ h => .inl h, fun _ => prefix_rfl⟩
  trans s s' s'' h h' hi := by
    obtain ⟨hi', hs⟩ := h hi
    obtain ⟨hi'', hs'⟩ := h' hi'
    exact ⟨hi'', hs.trans hs'⟩

theorem SameMail.tracks (h : SameMail s s') : Transacts s s' := by
  intro hi
  refine ⟨⟨h.kept hi.toKept, fun c d' hd' => ?_⟩, h.later, fun r hr => ?_, fun c => ?_⟩
  · obtain ⟨d, hd, -, ht⟩ := h.data_of hd'
    rw [ht]
    exact hi.empty c d hd
  · exact .inl (by rw [h.pendingReplies]; exact hr)
  · simp [h.outgoing]

theorem Transacts.always {α : Type} {x : BusM α} (h : Always (lenient oom) N SameMail x) :
    Always (lenient oom) N Transacts x :=
  h.mono (fun _ h => h) fun _ _ h => h.tracks

theorem Executing.settles (h : Executing t s [] s') (hr : InTransaction t s) : Idle s' ∧
    ∀ s0, Advance t (fun _ => False) s0 s → Settles s0 s' := by
  have hl : Later s s' := later_of_names h.connected h.names h.nextConnection
  refine ⟨⟨hr.toKept.mono hl h.activation ?_, fun c d hd => ?_⟩, fun s0 hs0 => ?_⟩
  · rw [h.pendingReplies]
    exact hr.serial
  · refine eq_nil_iff_forall_not_mem.2 fun w hw => ?_
    exact absurd (h.waiting c d hd w hw).2 not_mem_nil
  · refine ⟨hs0.toLater.trans hl, fun r hmm => ?_, fun c => ?_⟩
    · rcases hs0.replies r hmm with hin | (hls | ⟨m, hm, ha⟩) | hX
      · exact .inl (by rw [h.pendingReplies]; exact hin)
      · exact .inr (.inl (hl.lost _ hls))
      · refine .inr (.inr ⟨m, ?_, ha.mono hl⟩)
        rw [← hs0.outgoing]
        refine (h.sent _ m hm).resolve_left ?_
        rintro ⟨d, hd, hw⟩
        exact absurd (h.waiting _ d hd _ hw).2 not_mem_nil
      · exact hX.elim
    · rw [← hs0.outgoing c]
      exact h.outgoing c

theorem Transacts.of_eq (hc : s'.connections = s.connections)
    (hp : s'.pendingReplies = s.pendingReplies) (ha : s'.activation = s.activation)
    (hn : s'.nextConnection = s.nextConnection) : Transacts s s' := by
  intro hi
  have hl : Later s s' := later_of_eq hc hn
  refine ⟨⟨hi.toKept.mono hl ha ?_, ?_⟩, hl, fun r hr => .inl ?_, fun c => by simp [hc]⟩
  · rw [hp]
    exact hi.serial
  · rw [hc]
    exact hi.empty
  · rw [hp]
    exact hr

theorem Executing.step {rest : List ℕ} {d : BusConnectionData} (h : Executing t s (c :: rest) s')
    (hd : (s'.connections c).data = some d) : Executing t s rest ((s'.setData c fun d =>
      { d with transactionMessages := d.transactionMessages.filter (·.transaction ≠ t) }
      ).setConnection c fun x => { x with
        outgoing := x.outgoing ++
          ((d.transactionMessages.filter (·.transaction = t)).reverse.map (·.message)) }) := by
  generalize hs'' : Bus.setConnection _ c _ = s''
  have hsl : s''.connections c = ⟨(s'.connections c).connected,
      some { d with transactionMessages := d.transactionMessages.filter (·.transaction ≠ t) },
      (s'.connections c).outgoing ++
        ((d.transactionMessages.filter (·.transaction = t)).reverse.map (·.message))⟩ := by
    simp [← hs'', Bus.setData, Bus.setConnection, hd]
  have ho : ∀ c', c' ≠ c → s''.connections c' = s'.connections c' := by
    intro c' hc'
    simp [← hs'', Bus.setData, Bus.setConnection, update_of_ne hc']
  subst hs''
  refine ⟨h.pendingReplies, h.activation, h.nextConnection, fun c' => ?_, fun c' => ?_, fun c' => ?_,
    fun c' d' hd' w hw => ?_, fun c' m hm => ?_⟩
  all_goals by_cases hc' : c' = c
  · rw [hc', hsl]
    exact h.connected c
  · rw [ho c' hc']
    exact h.connected c'
  · rw [hc', hsl, ← h.names c, hd]
    rfl
  · rw [ho c' hc']
    exact h.names c'
  · rw [hc', hsl]
    exact (h.outgoing c).trans (prefix_append _ _)
  · rw [ho c' hc']
    exact h.outgoing c'
  · rw [hc', hsl] at hd'
    cases hd'
    -- all that waited was of the transaction
    obtain ⟨hw, hne⟩ := mem_filter.1 hw
    simp [(h.waiting c d hd w hw).1] at hne
  · rw [ho c' hc'] at hd'
    obtain ⟨ht, hin⟩ := h.waiting c' d' hd' w hw
    exact ⟨ht, (mem_cons.1 hin).resolve_left hc'⟩
  · subst hc'
    refine .inr ?_
    rw [hsl]
    rw [drop_append_of_le_length (h.outgoing c').length_le, mem_append]
    rcases h.sent c' m hm with ⟨d', hd', hin⟩ | hin
    · rw [hd] at hd'
      cases hd'
      refine .inr (mem_map.2 ⟨⟨t, m⟩, ?_, rfl⟩)
      simpa using hin
    · exact .inl hin
  · rw [Bus.Holds, ho c' hc']
    exact h.sent c' m hm

theorem sat_execute (hr : InTransaction t s) : Sat (lenient oom) (busTransactionExecuteAndFree t) s
      (fun _ s' => Idle s' ∧ s'.pendingReplies = s.pendingReplies ∧
        ∀ s0, Advance t (fun _ => False) s0 s → Settles s0 s')
      fun _ _ => False := by
  refine sat_read_bind fun tr htr => ?_
  have hsr : Executing t s tr.connections s := by
    refine ⟨rfl, rfl, rfl, fun _ => rfl, fun _ => rfl, fun _ => prefix_rfl, ?_, ?_⟩
    · intro c d hd w hw
      obtain ⟨ht, tr0, htr0, hin⟩ := hr.listed c d hd w hw
      rw [of_transaction htr] at htr0
      cases htr0
      exact ⟨ht, hin⟩
    · exact fun _ _ h => .inl h
  refine .next ((sat_forEach (E := fun _ _ => False) (Executing t s) ?_ tr.connections s
    hsr).imp fun _ s1 h1 => ?_)
  · intro c rest s1 h1
    refine sat_read_bind fun d hd => sat_assert_bind fun _ => sat_modify.2 ?_
    exact h1.step (of_connectionData hd)
  have hfr : Leads (lenient oom) (fun _ => False) SameMail s1
      (forEach (cancelHookFree false) tr.cancelHooks) :=
    Aside.always (Always.forEach fun hook _ => always_hookFree false hook) s1
  refine .next (.mono hfr (fun _ s2 h2 => sat_modify.2 ?_) fun _ _ h => h.1)
  obtain ⟨hi1, hst⟩ := h1.settles hr
  obtain ⟨hi2, h12⟩ := h2.tracks hi1
  have hend : Transacts s2 { s2.setTransaction t none with
    broadcasts := s2.broadcasts ++ tr.broadcasts } := .of_eq rfl rfl rfl rfl
  obtain ⟨hi3, h23⟩ := hend hi2
  refine ⟨hi3, ?_, fun s0 hs0 => ((hst s0 hs0).trans h12).trans h23⟩
  exact h2.pendingReplies.trans h1.pendingReplies

/-- What has been done in a transaction since it was opened. -/
def Opened (t : ℕ) (s s' : Bus) : Prop := Idle s → InTransaction t s' ∧ Advance t (fun _ => False) s s'

theorem Opened.mails (h : Opened t s s') (h' : Mails t s' s'') : Opened t s s'' := by
  intro hi
  obtain ⟨hr, hm⟩ := h hi
  obtain ⟨hr', hm'⟩ := h' hr
  exact ⟨hr', hm.trans hm'⟩

theorem sat_transactionNew : Sat (lenient oom) busTransactionNew s
      (fun t s' => Opened t s s' ∧ s'.pendingReplies = s.pendingReplies)
      fun _ s' => oom ∧ s' = s := by
  refine .next (sat_allocate ?_ fun ho => ⟨ho, rfl⟩)
  refine .next (sat_get.2 (.next (sat_modify.2 (sat_pure.2 ⟨fun hi => ?_, rfl⟩))))
  have hop : Transacts s { s.setTransaction s.nextTransaction (some ⟨[], [], []⟩) with
    nextTransaction := s.nextTransaction + 1 } := .of_eq rfl rfl rfl rfl
  obtain ⟨hi', hs⟩ := hop hi
  refine ⟨⟨hi'.toKept, fun c d hd w hw => ?_⟩, hs.toLater, fun r h => .inl h, fun c m h => ?_,
    fun c => rfl⟩
  · simp [hi'.empty c d hd] at hw
  · obtain ⟨d, hd, hm⟩ := h
    simp [hi.empty c d hd] at hm

theorem leads_execute (h : Opened t s s') (hi : Idle s) :
    Sat (lenient oom) (busTransactionExecuteAndFree t) s'
      (fun _ s'' => Transacts s s'' ∧ s''.pendingReplies = s'.pendingReplies) fun _ _ => False := by
  obtain ⟨hr, hm⟩ := h hi
  exact (sat_execute hr).imp fun _ s'' h'' => ⟨fun _ => ⟨h''.1, h''.2.2 s hm⟩, h''.2.1⟩

/-! ## Dispatching -/

theorem leads_dispatchTransaction (henv : LetsRepliesPass env) (hm : m.Proper) (hi : Idle s) :
    Sat (lenient False) (busDispatchTransaction env c m) s (fun _ => Transacts s)
      fun _ _ => False := by
  refine .next (.attempt (.mono sat_transactionNew ?_ fun _ _ h => h.1.elim))
  rintro t s1 ⟨ho, -⟩
  have hr : InTransaction t s1 := (ho hi).1
  refine .next (.attempt (.mono (leads_dispatchMessage henv hm hr) ?_ ?_))
  · exact fun _ s2 h2 => (leads_execute (ho.mails h2) hi).imp fun _ _ h => h.1
  · rintro e s2 ⟨he, h2⟩
    have ho2 := ho.mails h2
    refine .next (sat_get.2 (.ite (fun _ => ?_) fun _ => .ite (fun h => (he h).elim) ?_))
    · exact (leads_execute ho2 hi).imp fun _ _ h => h.1
    · intro _
      have hrp : Leads (lenient False) (MemoryError False) (Mails t) s2
        (busTransactionSendErrorReply env t c e m) := leads_sendErrorReply posts_mails env c e m
      refine .next (.attempt (.mono hrp ?_ fun _ _ h => h.1.elim))
      exact fun _ s3 h3 => (leads_execute (ho2.mails h3) hi).imp fun _ _ h => h.1

theorem always_preallocate (c : ℕ) :
    Always (lenient oom) N SameMail (busConnectionPreallocateOomError c) := by
  intro s
  refine leads_read fun d _ => ?_
  cases d.oomMessage with
  | some _ => exact .pure
  | none => exact .modify (sameMail_setData c rfl rfl rfl rfl rfl fun _ => ⟨rfl, rfl⟩)

/-! ## Activations that fail -/

section
variable (pending : ℕ) (how : DBusError) (hi : Idle s)
include hi

theorem leads_trySend : Leads (lenient False) (MemoryError False) Transacts s
      (trySendActivationFailure env pending how) := by
  refine Sat.bind sat_transactionNew ?_ fun _ _ h => h.1.elim
  rintro t s1 ⟨ho, -⟩
  refine sat_read_bind fun p _ => ?_
  have han : Leads (lenient False) (MemoryError False) (Mails t) s1
      (forEach (answerFailed env t how) p.entries) := by
    refine Always.forEach (fun entry _ s' => .get (.ite (fun _ => ?_) fun _ => ?_)) s1
    · exact leads_sendErrorReply posts_mails env _ _ _
    · exact .pure
  refine .next (.onError (.mono han (fun _ s2 h2 => ?_) fun _ _ h => h.1.elim))
  exact (leads_execute (ho.mails h2) hi).mono (fun _ _ h => h.1) fun _ _ => False.elim

theorem leads_activationFailed : Leads (lenient False) (MemoryError False) Transacts s
      (pendingActivationFailed env pending how) := by
  refine .bind (leads_waiting (leads_trySend pending how hi)) fun _ s1 _ => ?_
  exact leads_read fun p _ => Transacts.always (Aside.always (always_removePending p.serviceName)) s1

theorem leads_childExited : Leads (lenient False) (MemoryError False) Transacts s
      (babysitterChildExited env pending how) := by
  refine leads_read fun p _ => .get ?_
  have hal : Leads (lenient False) (MemoryError False) Transacts s
      (forEach (pendingActivationFailed env · how) (s.sameExec pending p.exec)) := by
    refine sat_forEach (fun _ s' => Transacts s s') (fun q qs s1 h1 => ?_) _ s (refl s)
    refine .mono (leads_activationFailed q how (h1 hi).1) ?_ fun _ _ h => h.1.elim
    exact fun _ s2 h2 => trans_of Transacts h1 h2
  exact .bind hal fun _ s1 h1 => leads_activationFailed pending how (h1 hi).1

end

/-! ## A connection goes -/

/-- What is done for a connection that goes, before its pending replies are dropped. -/
def Departs (s s' : Bus) : Prop := Transacts s s' ∧ s'.pendingReplies = s.pendingReplies

instance : IsPreorder Bus Departs where
  refl s := ⟨refl s, rfl⟩
  trans _ _ _ h h' := ⟨trans_of Transacts h.1 h'.1, h'.2.trans h.2⟩

theorem Departs.always {α : Type} {x : BusM α} (h : Always (lenient oom) N SameMail x) :
    Always (lenient oom) N Departs x :=
  h.mono (fun _ h => h) fun _ _ h => ⟨h.tracks, h.pendingReplies⟩

theorem leads_dropService (c service : ℕ) (hi : Idle s) :
    Leads (lenient False) (MemoryError False) Departs s (dropService env c service) := by
  refine Sat.bind sat_transactionNew ?_ fun _ _ h => h.1.elim
  rintro t s1 ⟨ho, hp1⟩
  have hrm : Leads (lenient False) (MemoryError False) (Silent t) s1
    (busServiceRemoveOwner env service c t) := leads_removeOwner carries_silent env service c
  refine .next (.mono hrm (fun _ s2 h2 => ?_) fun _ _ h => h.1.elim)
  refine (leads_execute (ho.mails h2.1) hi).mono (fun _ s3 h3 => ?_) fun _ _ => False.elim
  exact ⟨h3.1, h3.2.trans (h2.2.trans hp1)⟩

theorem leads_dropServices (c fuel : ℕ) (hi : Idle s) :
    Leads (lenient False) (MemoryError False) Departs s (dropServices env c fuel) := by
  induction fuel generalizing s with
  | zero => exact leads_read fun d _ => .ite (fun _ => .pure) fun _ => leads_check
  | succ fuel ih =>
    refine leads_read fun d _ => ?_
    cases d.servicesOwned.getLast? with
    | none => exact .pure
    | some service => exact .bind (leads_dropService c service hi) fun _ s1 h1 => ih (h1.1 hi).1

theorem leads_removeTransactions (c : ℕ) (hi : Idle s) :
    Leads (lenient oom) N Departs s (busConnectionRemoveTransactions c) := by
  refine leads_read fun d hd => ?_
  have hd := of_connectionData hd
  have hem := hi.empty c d hd
  rw [hem]
  refine Sat.next (sat_pure.2 (Leads.modify ?_))
  have hsm : (s.setData c fun d => { d with transactionMessages := [] }).connections =
      s.connections := by
    funext c'
    simp only [Bus.setData, Bus.setConnection, update_apply]
    split
    · rename_i h
      subst h
      rw [hd, map_some]
      have hsm : { d with transactionMessages := [] } = d := by rw [← hem]
      rw [hsm, ← hd]
    · rfl
  exact ⟨.of_eq hsm rfl rfl rfl, rfl⟩

theorem always_leaveConnections (c : ℕ) :
    Always (lenient oom) N SameMail (leaveConnections env c) := by
  intro s
  refine leads_read fun d _ => .get (.ite (fun _ => ?_) fun _ => ?_)
  · exact leads_assert_bind fun _ => .modify (.of_eq rfl rfl rfl rfl rfl)
  · refine leads_assert_bind fun _ => ?_
    refine .bind (.modify (.of_eq rfl rfl rfl rfl rfl)) fun _ s1 _ => ?_
    cases env.unixUser c with
    | none => exact .pure
    | some uid =>
      exact sat_adjust (.inr fun _ => trivial) (fun _ _ _ => .of_eq rfl rfl rfl rfl rfl)
        fun _ h => by cases h

def Accounted (s s' : Bus) : Prop :=
  ∀ r ∈ s.pendingReplies,
    (∃ r' ∈ s'.pendingReplies, r' = r ∨ r' = { r with willSendReply := none }) ∨ Settled s s' r

theorem Transacts.accounted (h : Transacts s s') (hi : Idle s) : Idle s' ∧ Accounted s s' :=
  ⟨(h hi).1, fun r hr => ((h hi).2.replies r hr).imp_left fun hin => ⟨r, hin, .inl rfl⟩⟩

theorem Accounted.of_same (h : Accounted s' s'') (hp : s'.pendingReplies = s.pendingReplies)
    (ho : ∀ c, (s'.connections c).outgoing = (s.connections c).outgoing) : Accounted s s'' := by
  intro r hr
  rw [← hp] at hr
  rcases h r hr with hin | hl | ⟨m, hm, ha⟩
  · exact .inl hin
  · exact .inr (.inl hl)
  · rw [ho] at hm
    exact .inr (.inr ⟨m, hm, ha⟩)

theorem accounted_drop (s' : Bus) {s0 : Bus} (hi : Idle s) (hc : s.isConnected c = false)
    (h0 : s.pendingReplies = s0.pendingReplies)
    (hcn : s'.connections = (s.setConnection c fun x => { x with data := none }).connections)
    (hp : s'.pendingReplies = (s.pendingReplies.filter (·.willGetReply ≠ c)).map fun r =>
      if r.willSendReply = some c then { r with willSendReply := none } else r)
    (ha : s'.activation = s.activation) (hn : s'.nextConnection = s.nextConnection) :
    Idle s' ∧ Accounted s0 s' := by
  have hsl : s'.connections c = ⟨(s.connections c).connected, none, (s.connections c).outgoing⟩ := by
    simp [hcn, Bus.setConnection]
  have ho : ∀ c', c' ≠ c → s'.connections c' = s.connections c' := by
    intro c' hc'
    simp [hcn, Bus.setConnection, update_of_ne hc']
  have hdt : ∀ c' d, (s'.connections c').data = some d → (s.connections c').data = some d := by
    intro c' d hd
    by_cases h : c' = c
    · simp [h, hsl] at hd
    · rw [← ho c' h]
      exact hd
  refine ⟨⟨⟨fun p q hq e he => ?_, fun r hr => ?_, fun c' h => ?_⟩, fun c' d hd => ?_⟩, fun r hr => ?_⟩
  · rw [ha] at hq
    have hsn := hi.entries p q hq e he
    exact ⟨hsn.proper, by rw [hn]; exact hsn.number, fun d hd => hsn.sender d (hdt _ d hd)⟩
  · rw [hp] at hr
    obtain ⟨r0, hr0, rfl⟩ := mem_map.1 hr
    have hsr := hi.serial r0 (mem_filter.1 hr0).1
    split
    · exact hsr
    · exact hsr
  · rw [hn] at h
    by_cases hc' : c' = c
    · rw [hc', hsl]
    · rw [ho c' hc']
      exact hi.fresh c' h
  · exact hi.empty c' d (hdt c' d hd)
  · by_cases hg : r.willGetReply = c
    · refine .inr (.inl ?_)
      rw [Bus.isConnected, hg, hsl]
      exact hc
    · refine .inl ⟨if r.willSendReply = some c then { r with willSendReply := none } else r, ?_, ?_⟩
      · rw [hp, h0]
        exact mem_map.2 ⟨r, mem_filter.2 ⟨hr, by simpa using hg⟩, rfl⟩
      · split
        · exact .inr rfl
        · exact .inl rfl

theorem sat_disconnected (hi : Idle s) (hc : s.isConnected c = false) :
    Sat (lenient False) (busConnectionDisconnected env c) s
      (fun _ s' => Idle s' ∧ Accounted s s') fun _ _ => False := by
  have hrl : Leads (lenient False) (fun _ => False) Departs s (busMatchmakerDisconnected c) :=
    .get (leads_assert_bind fun _ =>
      Always.forEach (fun rule _ => Departs.always (always_removeRule rule)) s)
  have hrs : ∀ s1, Departs s s1 → Sat (lenient False) (do
      let d ← read (·.connectionData c)
      waiting (dropServices env c d.servicesOwned.length)
      busConnectionRemoveTransactions c
      leaveConnections env c
      busConnectionDropPendingReplies c
      modify (·.setConnection c fun c => { c with data := none })) s1
      (fun _ s' => Idle s' ∧ Accounted s s') fun _ _ => False := by
    intro s1 h1
    refine sat_read_bind fun d _ => ?_
    refine .bind (leads_waiting (leads_dropServices c _ (h1.1 hi).1)) (fun _ s2 h2 => ?_)
      fun _ _ h => h.1
    have h2 := trans_of Departs h1 h2
    refine .bind (leads_removeTransactions c (h2.1 hi).1) (fun _ s3 h3 => ?_) fun _ _ h => h.1
    have h3 := trans_of Departs h2 h3
    refine .bind (Departs.always (always_leaveConnections c) s3) (fun _ s4 h4 => ?_) fun _ _ h => h.1
    have h4 := trans_of Departs h3 h4
    obtain ⟨hi4, hs4⟩ := h4.1 hi
    refine .next (sat_modify.2 (sat_modify.2 ?_))
    exact accounted_drop _ hi4 (hs4.lost c hc) h4.2 rfl rfl rfl rfl
  refine sat_read_bind fun d _ => .ite (fun _ => ?_) fun _ => hrs s (refl s)
  exact .bind hrl (fun _ s1 h1 => hrs s1 h1) fun _ _ h => h.1

/-! ## Replies that do not come -/

section
variable (henv : LetsRepliesPass env)
include henv

theorem sat_allowed_reply (b : ℕ) (hty : m.type = .error) (hsr : m.replySerial ≠ 0) :
    Sat (lenient False) (allowed env t none (some b) (some b) m) s
      (fun pass s' => pass = true ∧ s' = s) fun _ _ => False := by
  have hp : Sat (lenient False)
      (busContextCheckSecurityPolicy env t none (some b) (some b) m) s (fun _ s' => s' = s)
      fun _ _ => False := by
    refine .next (sat_get.2 (sat_assert_bind fun _ => sat_assert_bind fun _ => ?_))
    rw [hty]
    refine .next (.next (sat_get.2 (sat_pure.2 ?_)))
    rw [decide_eq_true ⟨rfl, hsr⟩]
    refine .next (sat_get.2 (sat_assert_bind fun _ => .ite (fun h => ?_) fun _ => ?_))
    · obtain ⟨c, hc, -⟩ := h
      cases hc
    · refine .next (.next (sat_get.2 (.ite (fun h => ?_) ?_)))
      · rw [henv.receive] at h
        cases h.2
      · refine fun _ => .ite (fun h => ?_) fun _ => sat_pure.2 (sat_pure.2 rfl)
        simp [henv.room] at h
  refine .next (.attempt (.mono hp ?_ fun _ _ => False.elim))
  rintro _ s' rfl
  exact sat_pure.2 ⟨rfl, rfl⟩

theorem sat_sendNoReply (hsr : r.replySerial ≠ 0) :
    Sat (lenient False) (busPendingReplySendNoReply env t r) s
      (fun _ s' => Silent t s s' ∧ s'.Answering t r) fun _ _ => False := by
  refine .next (sat_allocate (.next (sat_allocate (.next (sat_get.2 ?_)) False.elim)) False.elim)
  refine .next ((sat_allowed_reply henv r.willGetReply rfl hsr).imp ?_)
  rintro _ s' ⟨rfl, rfl⟩
  refine .mono (sat_send (N := MemoryError False) r.willGetReply _) ?_ fun _ _ h => h.1
  rintro _ s1 ⟨hsl, hh⟩
  exact ⟨hsl, hh.imp_right fun hh => ⟨_, hh, rfl, .inl ⟨rfl, rfl⟩⟩⟩

theorem leads_expired (hr : r ∈ s.pendingReplies) (hi : Idle s) :
    Sat (lenient False) (busPendingReplyExpired env r) s (fun _ => Transacts s)
      fun _ _ => False := by
  refine .next (.attempt (.mono sat_transactionNew ?_ fun _ _ h => h.1.elim))
  rintro t s1 ⟨ho, -⟩
  refine .next (.attempt (.mono (sat_sendNoReply henv (hi.serial r hr)) ?_ fun _ _ => False.elim))
  rintro _ s2 ⟨h2, han⟩
  refine .next (sat_modify.2 ?_)
  have her : Mails t s2 { s2 with pendingReplies := s2.pendingReplies.erase r } := by
    intro hr2
    have h : InTransaction t { s2 with pendingReplies := s2.pendingReplies.erase r } ∧ Advance t (· = r) s2
        { s2 with pendingReplies := s2.pendingReplies.erase r } := by
      refine moved_replies hr2 rfl rfl rfl rfl (fun r' h => ?_) fun r' h => ?_
      · exact hr2.serial r' (mem_of_mem_erase h)
      · by_cases he : r' = r
        · exact .inr he
        · exact .inl ((mem_erase_of_ne he).2 h)
    refine ⟨h.1, h.2.toLater, fun r' hr' => ?_, h.2.held, h.2.outgoing⟩
    rcases h.2.replies r' hr' with hin | ha | rfl
    · exact .inl hin
    · exact .inr (.inl ha)
    · exact .inr (.inl (han.mono h.2))
  exact (leads_execute ((ho.mails h2.1).mails her) hi).imp fun _ _ h => h.1

end

/-! ## Runs -/

theorem accounted_connect (s' : Bus) (hi : Idle s)
    (hcn : s'.connections = Function.update s.connections s.nextConnection
      ⟨true, some .new, (s.connections s.nextConnection).outgoing⟩)
    (hp : s'.pendingReplies = s.pendingReplies) (ha : s'.activation = s.activation)
    (hn : s'.nextConnection = s.nextConnection + 1) : Idle s' ∧ Accounted s s' := by
  have ho : ∀ c, c ≠ s.nextConnection → s'.connections c = s.connections c := by
    intro c hc
    rw [hcn, update_of_ne hc]
  refine ⟨⟨⟨fun p q hq e he => ?_, by rw [hp]; exact hi.serial, fun c h => ?_⟩, fun c d hd => ?_⟩,
    fun r hr => .inl ⟨r, by rw [hp]; exact hr, .inl rfl⟩⟩
  · rw [ha] at hq
    have hsn := hi.entries p q hq e he
    refine ⟨hsn.proper, by rw [hn]; exact Nat.lt_succ_of_lt hsn.number, fun d hd => ?_⟩
    rw [ho _ (Nat.ne_of_lt hsn.number)] at hd
    exact hsn.sender d hd
  · rw [hn] at h
    rw [ho c (by omega)]
    exact hi.fresh c (by omega)
  · by_cases hc : c = s.nextConnection
    · rw [hcn, hc, update_self] at hd
      cases hd
      rfl
    · rw [ho c hc] at hd
      exact hi.empty c d hd

theorem idle_lost (hi : Idle s) (c : ℕ) :
    Idle (s.setConnection c fun x => { x with connected := false }) := by
  refine ⟨kept_lost hi.toKept c, fun c' d hd => ?_⟩
  rw [(lost_data c c').1] at hd
  exact hi.empty c' d hd

theorem sat_message (henv : LetsRepliesPass env) (hm : m.Proper)
    (hl : m.interface ≠ some localInterface) (hi : Idle s) :
    Sat (lenient False) (busDispatch env c m) s (fun _ => Transacts s) fun _ _ => False := by
  have hp : Leads (lenient False) (fun _ => False) SameMail s
    (busConnectionPreallocateOomError c) := always_preallocate c s
  refine .bind hp (fun _ s1 h1 => ?_) fun _ _ h => h.1
  have hms : Sat (lenient False) (busDispatchTransaction env c m) s1 (fun _ => Transacts s)
      fun _ _ => False :=
    (leads_dispatchTransaction henv hm (h1.tracks hi).1).imp fun _ _ h =>
      trans_of Transacts h1.tracks h
  refine .ite (fun _ => .ite (fun h => ?_) fun _ => ?_) fun _ => hms
  · simp only [BusMessage.isSignal, decide_eq_true_eq] at h
    exact absurd h.2.1 hl
  · exact .ite (fun _ => sat_pure.2 h1.tracks) fun _ => hms

theorem sat_dispatchDisconnected (hi : Idle s) (hc : s.isConnected c = false) :
    Sat (lenient False) (busDispatch env c disconnectedMessage) s
      (fun _ s' => Idle s' ∧ Accounted s s') fun _ _ => False := by
  have hp : Leads (lenient False) (fun _ => False) SameMail s
    (busConnectionPreallocateOomError c) := always_preallocate c s
  refine .bind hp (fun _ s1 h1 => ?_) fun _ _ h => h.1
  obtain ⟨hi1, hs1⟩ := h1.tracks hi
  refine .ite (fun _ => .ite (fun _ => ?_) fun h => ?_) fun h => absurd rfl h
  · refine (sat_disconnected hi1 (hs1.lost c hc)).imp fun _ s2 h2 => ⟨h2.1, ?_⟩
    exact h2.2.of_same h1.pendingReplies h1.outgoing
  · exact absurd (by decide) h

theorem sat_step (he : event.LetsReplies) (hi : Idle s) :
    Sat (lenient False) (busStep event) s (fun _ s' => Idle s' ∧ Accounted s s')
      fun _ _ => False := by
  have hst : Idle s ∧ Accounted s s := Transacts.accounted (refl s) hi
  cases event with
  | connect => exact sat_modify.2 (accounted_connect _ hi rfl rfl rfl rfl)
  | lost c => exact sat_modify.2 ⟨idle_lost hi c, fun r hr => .inl ⟨r, hr, .inl rfl⟩⟩
  | message env c m =>
    refine .next (sat_get.2 (.ite (fun h => ?_) fun _ => sat_pure.2 hst))
    exact (sat_message he.1 he.2 h.2 hi).imp fun _ s' h => h.accounted hi
  | disconnected env c =>
    refine .next (sat_get.2 (.ite (fun _ => ?_) fun _ => sat_pure.2 hst))
    refine .next (sat_modify.2 ?_)
    have hc : (s.setConnection c fun x => { x with connected := false }).isConnected c = false := by
      simp [Bus.isConnected, Bus.setConnection]
    refine (sat_dispatchDisconnected (idle_lost hi c) hc).imp fun _ s' h => ⟨h.1, ?_⟩
    exact h.2.of_same rfl fun c' => (lost_data c c').2
  | timedOut env pending =>
    refine .next (sat_get.2 (.ite (fun _ => ?_) fun _ => sat_pure.2 hst))
    refine sat_read_bind fun p _ => .mono (leads_activationFailed pending _ hi) ?_ ?_
    · exact fun _ s' h => h.accounted hi
    · exact fun _ _ h => h.1
  | childExited env pending error =>
    refine .next (sat_get.2 (.ite (fun _ => ?_) fun _ => sat_pure.2 hst))
    exact .mono (leads_childExited pending _ hi) (fun _ s' h => h.accounted hi) fun _ _ h => h.1
  | expired env reply =>
    refine .next (sat_get.2 ?_)
    cases hfn : s.pendingReplies.find? (·.id = reply) with
    | none => exact sat_pure.2 hst
    | some r =>
      exact (leads_expired he (mem_of_find?_eq_some hfn) hi).imp fun _ s' h => h.accounted hi

theorem idle_empty : Idle .empty := by
  refine ⟨⟨fun _ _ h => ?_, fun _ h => ?_, fun _ _ => rfl⟩, fun _ _ h => ?_⟩
  · cases h
  · cases h
  · cases h

theorem busRun_step (he : event.LetsReplies) (hi : Idle s) (h : busRun [event] s = .ok s') :
    Idle s' ∧ Accounted s s' := by
  have hst := (sat_step he hi).outcome
  rw [busRun] at h
  cases ho : (busStep event).outcome s with
  | error w => simp [ho] at h
  | ok out =>
    obtain ⟨_ | _, s1⟩ := out
    · rw [ho] at hst
      exact hst.elim
    · rw [ho] at hst h
      simp only [busRun, Except.ok.injEq] at h
      subst h
      exact hst

theorem busRun_append (events events' : List BusEvent) :
    busRun (events ++ events') s = (busRun events s).bind (busRun events') := by
  induction events generalizing s with
  | nil => rfl
  | cons event events ih =>
    rw [cons_append, busRun, busRun]
    cases (busStep event).outcome s with
    | error w => rfl
    | ok out => exact ih

theorem busRun_idle (events : List BusEvent) (he : ∀ e ∈ events, e.LetsReplies) (hi : Idle s)
    (h : busRun events s = .ok s') : Idle s' := by
  induction events generalizing s with
  | nil =>
    cases h
    exact hi
  | cons event events ih =>
    have hsp : busRun ([event] ++ events) s = .ok s' := h
    rw [busRun_append] at hsp
    cases hfr : busRun [event] s with
    | error w => simp [hfr, Except.bind] at hsp
    | ok s1 =>
      rw [hfr] at hsp
      have hi1 := (busRun_step (he event mem_cons_self) hi hfr).1
      exact ih (fun e h => he e (mem_cons_of_mem _ h)) hi1 hsp

/-- In a run in which no requested reply is refused, a pending reply leaves the list only
    when an answer has been queued for the caller, or when the caller is gone. -/
theorem pending_reply_settled (events : List BusEvent) (event : BusEvent)
    (he : ∀ e ∈ events ++ [event], e.LetsReplies) (bus bus' : Bus)
    (hrun : busRun events .empty = .ok bus) (hstep : busRun [event] bus = .ok bus') :
    ∀ r ∈ bus.pendingReplies,
      (∃ r' ∈ bus'.pendingReplies, r' = r ∨ r' = { r with willSendReply := none }) ∨
        Settled bus bus' r := by
  have hid := busRun_idle events (fun e h => he e (mem_append_left _ h)) idle_empty hrun
  exact (busRun_step (he event (by simp)) hid hstep).2

end

/-- A configuration without limits and restrictions, and without services to start. -/
def openEnv : BusEnv where
  maxServicesPerConnection := 512
  maxCompletedConnections := 2048
  maxConnectionsPerUser := 256
  maxMatchRulesPerConnection := 512
  maxRepliesPerConnection := 1024
  maxPendingActivations := 512
  id := []
  servicehelper := none
  introspection := []
  processExists _ := false
  selinuxAllowsAcquire _ _ _ := true
  selinuxAllowsSend _ _ _ _ := true
  canOwn _ _ _ := true
  canSend _ _ _ _ _ := true
  canReceive _ _ _ _ _ _ := true
  refusal _ _ := []
  outgoingFull _ _ := false
  createClientPolicy _ := .ok ()
  unixUser _ := none
  unixProcessId _ := none
  adtAuditSessionData _ := none
  selinuxContext _ := none
  matchRuleParse _ _ := .error ⟨⟨.failed, []⟩, nofun⟩
  findEntry _ := .error ⟨⟨.failed, []⟩, nofun⟩
  activatable := []
  shellParseArgv _ := .ok ()
  spawn _ := .ok ()
  reloadConfig := .ok ()

theorem letsRepliesPass_openEnv : LetsRepliesPass openEnv :=
  ⟨fun _ _ _ _ => rfl, fun _ _ _ _ _ => rfl, fun _ _ => rfl⟩

/-- `Hello` -/
def helloCall : BusMessage :=
  { type := .methodCall, serial := 1, destination := some serviceDBus, path := some pathDBus,
    interface := some interfaceDBus, member := some (asciiBytes "Hello") }

def pingCall : BusMessage :=
  { type := .methodCall, serial := 2, destination := some (asciiBytes ":1.0"),
    path := some pathDBus, member := some (asciiBytes "Ping") }

/-- Two peers connect, and the second one calls the first. -/
def callEvents : List BusEvent :=
  [.connect, .connect, .message openEnv 0 helloCall, .message openEnv 1 helloCall,
    .message openEnv 1 pingCall]

def replyMessage : BusMessage :=
  { type := .methodReturn, serial := 2, replySerial := 2, noReply := true,
    destination := some (asciiBytes ":1.1") }

/-- The reply of the first peer is dispatched while the queue of the second one is full. -/
def replyToFullQueue : BusEvent :=
  .message { openEnv with outgoingFull := fun _ c => c = 1 } 0 replyMessage

theorem pending_reply_answered : ∃ bus bus', busRun callEvents .empty = .ok bus ∧
    busRun [.message openEnv 0 replyMessage] bus = .ok bus' ∧ bus.pendingReplies ≠ [] ∧
      ∀ r ∈ bus.pendingReplies, Settled bus bus' r := by
  have hp : ∀ e ∈ callEvents ++ [.message openEnv 0 replyMessage], e.LetsReplies := by
    intro e he
    simp only [callEvents, cons_append, nil_append, mem_cons, not_mem_nil,
      or_false] at he
    rcases he with rfl | rfl | rfl | rfl | rfl | rfl
    · trivial
    · trivial
    all_goals exact ⟨letsRepliesPass_openEnv, by decide, by decide⟩
  have hrn : ((busRun callEvents .empty).toOption.any fun bus =>
      bus.pendingReplies ≠ [] ∧ ((busRun [.message openEnv 0 replyMessage] bus).toOption.any fun bus' =>
        bus'.pendingReplies = []) = true) = true := by
    decide +kernel
  cases hru : busRun callEvents .empty with
  | error w => simp [hru, Except.toOption] at hrn
  | ok bus =>
    cases hst : busRun [.message openEnv 0 replyMessage] bus with
    | error w => simp [hru, hst, Except.toOption] at hrn
    | ok bus' =>
      simp only [hru, hst, Except.toOption, any_some, decide_eq_true_eq] at hrn
      refine ⟨bus, bus', rfl, hst, hrn.1, fun r hr => ?_⟩
      refine (pending_reply_settled callEvents _ hp bus bus' hru hst r hr).resolve_left ?_
      rintro ⟨r', hr', -⟩
      rw [hrn.2] at hr'
      cases hr'

/-- The reply is refused after its record has been taken off the list, and the caller, who
    is still there, gets neither the reply nor an error. -/
theorem refused_reply_unsettled : ∃ bus bus', busRun callEvents .empty = .ok bus ∧
    busRun [replyToFullQueue] bus = .ok bus' ∧ ∃ r ∈ bus.pendingReplies,
      ¬ ((∃ r' ∈ bus'.pendingReplies, r' = r ∨ r' = { r with willSendReply := none }) ∨
        Settled bus bus' r) := by
  have hrn : ((busRun callEvents .empty).toOption.any fun bus =>
      bus.pendingReplies.head?.any fun r => ((busRun [replyToFullQueue] bus).toOption.any fun bus' =>
        bus'.pendingReplies = [] ∧ bus'.isConnected r.willGetReply = true ∧
          ((bus'.connections r.willGetReply).outgoing.drop
            (bus.connections r.willGetReply).outgoing.length).isEmpty = true)) = true := by
    decide +kernel
  cases hru : busRun callEvents .empty with
  | error w => simp [hru, Except.toOption] at hrn
  | ok bus =>
    cases hh : bus.pendingReplies.head? with
    | none => simp [hru, hh, Except.toOption] at hrn
    | some r =>
      cases hst : busRun [replyToFullQueue] bus with
      | error w => simp [hru, hh, hst, Except.toOption] at hrn
      | ok bus' =>
        simp only [hru, hh, hst, Except.toOption, any_some, decide_eq_true_eq,
          List.isEmpty_iff] at hrn
        obtain ⟨hnn, hcn, hem⟩ := hrn
        refine ⟨bus, bus', rfl, hst, r, mem_of_mem_head? hh, ?_⟩
        rintro (⟨r', hr', -⟩ | hl | ⟨m, hm, -⟩)
        · rw [hnn] at hr'
          cases hr'
        · simp [hcn] at hl
        · simp [hem] at hm

end DBus
