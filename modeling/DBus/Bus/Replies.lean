/-
  Calls that wait for a reply: what is done with them in a transaction.

  A pending reply is taken off the list when the message that answers it has passed the
  check of its sender.  The message may still be refused behind that check; then the call is
  forgotten.  Where requested replies are not refused (`LetsRepliesPass`) the answer waits on
  the connection of the caller (`Bus.Holds`) until the transaction is executed.
-/
import DBus.Bus.Mail

namespace DBus

open BusM Eff List Option Function

/-! ## Answers -/

/-- A message answers a call: it is the callee's reply, or the error that the bus sends
    for a reply that does not come. -/
def Bus.Answers (s : Bus) (r : BusPendingReply) (m : BusMessage) : Prop :=
  m.replySerial = r.replySerial ∧
    ((m.sender = some serviceDBus ∧ m.errorName = some (asciiBytes ErrorName.noReply.text)) ∨
      ∃ c name, r.willSendReply = some c ∧ s.connectionName c = some name ∧ m.sender = some name)

/-- The policies let requested replies pass, and no queue is full. -/
structure LetsRepliesPass (env : BusEnv) : Prop where
  send : ∀ bus c proposed m, env.canSend bus c true proposed m = true
  receive : ∀ bus c sender addressed m, env.canReceive bus c true sender addressed m = true
  room : ∀ bus c, env.outgoingFull bus c = false

/-- A message has a serial, and a call is not a reply. -/
def BusMessage.Proper (m : BusMessage) : Prop :=
  m.serial ≠ 0 ∧ (m.type = .methodCall → m.replySerial = 0)

/-! ## Within a transaction -/

/-- A message of the transaction `t` waits on a connection. -/
def Bus.Holds (s : Bus) (t c : ℕ) (m : BusMessage) : Prop :=
  ∃ d, (s.connections c).data = some d ∧ ⟨t, m⟩ ∈ d.transactionMessages

/-- The message is one that the connection has sent under its name. -/
structure Bus.SentBy (s : Bus) (c : ℕ) (m : BusMessage) : Prop where
  proper : m.Proper
  number : c < s.nextConnection
  sender : ∀ d, (s.connections c).data = some d → ∃ name, d.name = some name ∧ m.sender = some name

/-- What is known of the messages kept for activation, of the pending replies and of the
    numbers of connections. -/
structure Kept (s : Bus) : Prop where
  entries : ∀ p q, s.activation.pendings p = some q →
    ∀ e ∈ q.entries, s.SentBy e.connection e.activationMessage
  serial : ∀ r ∈ s.pendingReplies, r.replySerial ≠ 0
  fresh : ∀ c, s.nextConnection ≤ c → (s.connections c).data = none

/-- The waiting messages are all of the transaction `t`, which lists their connections. -/
structure InTransaction (t : ℕ) (s : Bus) : Prop extends Kept s where
  listed : ∀ c d, (s.connections c).data = some d → ∀ h ∈ d.transactionMessages,
    h.transaction = t ∧ ∃ tr, s.transactions t = some tr ∧ c ∈ tr.connections

/-- An answer waits for the caller, or the caller is gone. -/
def Bus.Answering (s : Bus) (t : ℕ) (r : BusPendingReply) : Prop :=
  s.isConnected r.willGetReply = false ∨ ∃ m, s.Holds t r.willGetReply m ∧ s.Answers r m

/-- No connection is new or comes back, and a name that is given stays. -/
structure Later (s s' : Bus) : Prop where
  lost : ∀ c, s.isConnected c = false → s'.isConnected c = false
  names : ∀ c name, s.connectionName c = some name → s'.connectionName c = some name
  gone : ∀ c, (s.connections c).data = none → (s'.connections c).data = none
  nextConnection : s'.nextConnection = s.nextConnection

/-- What is done in the transaction `t`: a pending reply is still there, or is being
    answered, or is one of `X`. -/
structure Advance (t : ℕ) (X : BusPendingReply → Prop) (s s' : Bus) : Prop extends Later s s' where
  replies : ∀ r ∈ s.pendingReplies, r ∈ s'.pendingReplies ∨ s'.Answering t r ∨ X r
  held : ∀ c m, s.Holds t c m → s'.Holds t c m
  outgoing : ∀ c, (s'.connections c).outgoing = (s.connections c).outgoing

/-- What the functions that run in the transaction `t` do. -/
def Mails (t : ℕ) (s s' : Bus) : Prop := InTransaction t s → InTransaction t s' ∧ Advance t (fun _ => False) s s'

/-- What the functions that leave the pending replies alone do. -/
def Silent (t : ℕ) (s s' : Bus) : Prop := Mails t s s' ∧ s'.pendingReplies = s.pendingReplies

section
variable {t : ℕ} {X : BusPendingReply → Prop} {s s' s'' : Bus} {r : BusPendingReply}
  {m : BusMessage} {c : ℕ} {d : BusConnectionData} {f : BusConnectionData → BusConnectionData}
  {oom : Prop} {N : DBusError → Prop} {b : ℕ}

theorem Later.rfl : Later s s := ⟨fun _ h => h, fun _ _ h => h, fun _ h => h, by rfl⟩

theorem Later.trans (h : Later s s') (h' : Later s' s'') : Later s s'' :=
  ⟨fun c hc => h'.lost c (h.lost c hc), fun c name hc => h'.names c name (h.names c name hc),
    fun c hc => h'.gone c (h.gone c hc), h'.nextConnection.trans h.nextConnection⟩

theorem later_of_eq (hc : s'.connections = s.connections)
    (hn : s'.nextConnection = s.nextConnection) : Later s s' := by
  refine ⟨fun c h => ?_, fun c name h => ?_, fun c h => ?_, hn⟩
  · rw [Bus.isConnected, hc]
    exact h
  · rw [Bus.connectionName, hc]
    exact h
  · rw [hc]
    exact h

theorem later_of_names (hc : ∀ c, (s'.connections c).connected = (s.connections c).connected)
    (hnm : ∀ c, (s'.connections c).data.map (·.name) = (s.connections c).data.map (·.name))
    (hn : s'.nextConnection = s.nextConnection) : Later s s' := by
  refine ⟨fun c h => ?_, fun c name h => ?_, fun c h => ?_, hn⟩
  · rw [Bus.isConnected, hc]
    exact h
  · obtain ⟨d, hd, hdn⟩ := Option.bind_eq_some_iff.1 h
    have hd' := hnm c
    rw [hd, map_some, map_eq_some_iff] at hd'
    obtain ⟨d', hd', hp⟩ := hd'
    rw [Bus.connectionName, hd', bind_some, hp, hdn]
  · simpa [h] using hnm c

theorem Bus.Answers.mono (h : s.Answers r m) (hs : Later s s') : s'.Answers r m := by
  refine ⟨h.1, h.2.imp (fun hb => hb) ?_⟩
  rintro ⟨c, name, hc, hnm, hm⟩
  exact ⟨c, name, hc, hs.names c name hnm, hm⟩

theorem Bus.Answering.mono (h : s.Answering t r) (hs : Advance t X s s') : s'.Answering t r := by
  rcases h with h | ⟨m, hm, ha⟩
  · exact .inl (hs.lost _ h)
  · exact .inr ⟨m, hs.held _ _ hm, ha.mono hs.toLater⟩

theorem Advance.rfl : Advance t X s s :=
  ⟨.rfl, fun _ h => .inl h, fun _ _ h => h, fun _ => by rfl⟩

theorem Advance.trans (h : Advance t X s s') (h' : Advance t X s' s'') : Advance t X s s'' := by
  refine ⟨h.toLater.trans h'.toLater, fun r hr => ?_, fun c m hm => h'.held c m (h.held c m hm),
    fun c => (h'.outgoing c).trans (h.outgoing c)⟩
  rcases h.replies r hr with hin | han | hX
  · exact h'.replies r hin
  · exact .inr (.inl (han.mono h'))
  · exact .inr (.inr hX)

theorem Advance.weaken (h : Advance t (fun _ => False) s s') : Advance t X s s' :=
  ⟨h.toLater, fun r hr => (h.replies r hr).imp_right (.imp_right False.elim), h.held, h.outgoing⟩

theorem Bus.SentBy.mono (h : s.SentBy c m) (hs : Later s s') : s'.SentBy c m := by
  refine ⟨h.proper, by rw [hs.nextConnection]; exact h.number, fun d' hd' => ?_⟩
  cases hd : (s.connections c).data with
  | none =>
    rw [hs.gone c hd] at hd'
    cases hd'
  | some d =>
    obtain ⟨name, hnm, hm⟩ := h.sender d hd
    have hn := hs.names c name (by simp [Bus.connectionName, hd, hnm])
    simp only [Bus.connectionName, hd', bind_some] at hn
    exact ⟨name, hn, hm⟩

theorem Kept.mono (hk : Kept s) (h : Later s s') (ha : s'.activation = s.activation)
    (hsr : ∀ r ∈ s'.pendingReplies, r.replySerial ≠ 0) : Kept s' := by
  refine ⟨fun p q hq e he => ?_, hsr, fun c hc => ?_⟩
  · rw [ha] at hq
    exact (hk.entries p q hq e he).mono h
  · rw [h.nextConnection] at hc
    exact h.gone c (hk.fresh c hc)

instance : IsPreorder Bus (Mails t) where
  refl s h := ⟨h, .rfl⟩
  trans s s' s'' h h' hr := by
    obtain ⟨hr', hm⟩ := h hr
    obtain ⟨hr'', hm'⟩ := h' hr'
    exact ⟨hr'', hm.trans hm'⟩

instance : IsPreorder Bus (Silent t) where
  refl s := ⟨refl s, rfl⟩
  trans _ _ _ h h' := ⟨trans_of (Mails t) h.1 h'.1, h'.2.trans h.2⟩

/-! ## The steps of the driver -/

theorem SameMail.data_of (h : SameMail s s') {d' : BusConnectionData}
    (hd' : (s'.connections c).data = some d') : ∃ d, (s.connections c).data = some d ∧
      d'.name = d.name ∧ d'.transactionMessages = d.transactionMessages := by
  have hdt := h.data c
  rw [hd', map_some, eq_comm, map_eq_some_iff] at hdt
  obtain ⟨d, hd, hp⟩ := hdt
  exact ⟨d, hd, Prod.mk.inj hp.symm⟩

section
variable (h : SameMail s s')
include h

theorem SameMail.symm_data (hd : (s.connections c).data = some d) :
    ∃ d', (s'.connections c).data = some d' ∧
      d'.name = d.name ∧ d'.transactionMessages = d.transactionMessages := by
  have hdt := h.data c
  rw [hd, map_some, map_eq_some_iff] at hdt
  obtain ⟨d', hd', hp⟩ := hdt
  exact ⟨d', hd', Prod.mk.inj hp⟩

theorem SameMail.later : Later s s' := by
  refine later_of_names h.connected (fun c => ?_) h.nextConnection
  have hdt := congrArg (Option.map Prod.fst) (h.data c)
  rwa [Option.map_map, Option.map_map] at hdt

theorem SameMail.moved : Advance t X s s' := by
  refine ⟨h.later, fun r hr => .inl (by rw [h.pendingReplies]; exact hr), ?_, h.outgoing⟩
  rintro c m ⟨d, hd, hm⟩
  obtain ⟨d', hd', -, ht⟩ := h.symm_data hd
  exact ⟨d', hd', by rw [ht]; exact hm⟩

theorem SameMail.kept (hk : Kept s) : Kept s' := by
  refine ⟨fun p q' hq' e he => ?_, by rw [h.pendingReplies]; exact hk.serial, fun c hc => ?_⟩
  · obtain ⟨q, hq, hen⟩ := h.entries p q' hq'
    rw [← hen] at he
    exact (hk.entries p q hq e he).mono h.later
  · rw [h.nextConnection] at hc
    exact h.later.gone c (hk.fresh c hc)

theorem SameMail.ready (hr : InTransaction t s) : InTransaction t s' := by
  refine ⟨h.kept hr.toKept, fun c d' hd' w hw => ?_⟩
  obtain ⟨d, hd, -, ht⟩ := h.data_of hd'
  rw [ht] at hw
  rw [h.transactions]
  exact hr.listed c d hd w hw

theorem SameMail.silent : Silent t s s' := ⟨fun hr => ⟨h.ready hr, h.moved⟩, h.pendingReplies⟩

end

theorem Silent.mails (h : Silent t s s') : Mails t s s' := h.1

theorem SameMail.mails (h : SameMail s s') : Mails t s s' := h.silent.1

theorem Advance.of_connections (hc : s'.connections = s.connections)
    (hn : s'.nextConnection = s.nextConnection)
    (hl : ∀ r ∈ s.pendingReplies, r ∈ s'.pendingReplies ∨ X r) : Advance t X s s' := by
  refine ⟨later_of_eq hc hn, fun r hr => (hl r hr).imp_right Or.inr, fun c m h => ?_,
    fun c => by rw [hc]⟩
  rw [Bus.Holds, hc]
  exact h

section
variable (hd : (s.connections c).data = some d) (hc : s'.connections = (s.setData c f).connections)
include hd hc

theorem setData_connections (c' : ℕ) :
    s'.connections c' = s.connections c' ∨ (c' = c ∧ s'.connections c' =
      ⟨(s.connections c).connected, some (f d), (s.connections c).outgoing⟩) := by
  rw [hc]
  simp only [Bus.setData, Bus.setConnection, update_apply]
  split
  · rename_i h
    exact .inr ⟨h, by rw [hd]; rfl⟩
  · exact .inl rfl

theorem Advance.of_setData (hw : ∀ w ∈ d.transactionMessages, w ∈ (f d).transactionMessages)
    (hnm : ∀ name, d.name = some name → (f d).name = some name)
    (hp : s'.pendingReplies = s.pendingReplies) (hn : s'.nextConnection = s.nextConnection) :
    Advance t X s s' := by
  refine ⟨⟨fun c' => ?_, fun c' => ?_, fun c' => ?_, hn⟩,
    fun r hr => .inl (by rw [hp]; exact hr), ?_, fun c' => ?_⟩
  · rcases setData_connections hd hc c' with h | ⟨rfl, h⟩ <;> simp [Bus.isConnected, h]
  · rcases setData_connections hd hc c' with h | ⟨rfl, h⟩
    · simp [Bus.connectionName, h]
    · simpa [Bus.connectionName, h, hd] using hnm
  · rcases setData_connections hd hc c' with h | ⟨rfl, h⟩ <;> simp [h, hd]
  · rintro c' m ⟨d', hd', hm⟩
    rcases setData_connections hd hc c' with h | ⟨rfl, h⟩
    · exact ⟨d', by rw [h]; exact hd', hm⟩
    · rw [hd] at hd'
      cases hd'
      exact ⟨f d, by rw [h], hw _ hm⟩
  · rcases setData_connections hd hc c' with h | ⟨rfl, h⟩ <;> rw [h]

end

theorem silent_setTransaction {tr tr' : BusTransaction} (htr : s.transactions t = some tr)
    (hc : tr'.connections = tr.connections) : Silent t s (s.setTransaction t (some tr')) := by
  have hm : Advance t (fun _ => False) s (s.setTransaction t (some tr')) :=
    .of_connections rfl rfl fun _ h => .inl h
  refine ⟨fun hr => ⟨⟨hr.toKept.mono hm.toLater rfl hr.serial, fun c d hd w hw => ?_⟩, hm⟩, rfl⟩
  obtain ⟨ht, tr0, htr0, hin⟩ := hr.listed c d hd w hw
  rw [htr] at htr0
  cases htr0
  exact ⟨ht, tr', by simp [Bus.setTransaction], by rw [hc]; exact hin⟩

theorem silent_put (s' : Bus) {tr tr' : BusTransaction} (hd : (s.connections c).data = some d)
    (htr : s.transactions t = some tr) (hsb : tr.connections ⊆ tr'.connections)
    (hc : InTransaction t s → c ∈ tr'.connections) (hcn : s'.connections = (s.setData c fun d =>
      { d with transactionMessages := ⟨t, m⟩ :: d.transactionMessages }).connections)
    (hp : s'.pendingReplies = s.pendingReplies) (ht : s'.transactions t = some tr')
    (ha : s'.activation = s.activation) (hn : s'.nextConnection = s.nextConnection) :
    Silent t s s' ∧ s'.Holds t c m := by
  have hm : Advance t (fun _ => False) s s' :=
    .of_setData hd hcn (fun w hw => mem_cons_of_mem _ hw) (fun _ h => h) hp hn
  have hh : s'.Holds t c m := by
    refine ⟨{ d with transactionMessages := ⟨t, m⟩ :: d.transactionMessages }, ?_, ?_⟩
    · rw [hcn]
      simp [Bus.setData, Bus.setConnection, hd]
    · exact mem_cons_self
  refine ⟨⟨fun hr => ⟨⟨hr.toKept.mono hm.toLater ha ?_, fun c' d' hd' w hw => ?_⟩, hm⟩, hp⟩, hh⟩
  · rw [hp]
    exact hr.serial
  · rcases setData_connections hd hcn c' with h | ⟨rfl, h⟩
    · rw [h] at hd'
      obtain ⟨hwt, tr0, htr0, hin⟩ := hr.listed c' d' hd' w hw
      rw [htr] at htr0
      cases htr0
      exact ⟨hwt, tr', ht, hsb hin⟩
    · rw [h] at hd'
      cases hd'
      rcases mem_cons.1 hw with rfl | hw
      · exact ⟨rfl, tr', ht, hc hr⟩
      · exact ⟨(hr.listed c' d hd w hw).1, tr', ht, hc hr⟩

theorem sat_send [HasOom oom N] (c : ℕ) (m : BusMessage) :
    Sat (lenient oom) (busTransactionSend t c m) s
      (fun _ s' => Silent t s s' ∧ (s'.isConnected c = false ∨ s'.Holds t c m))
      fun e s' => N e ∧ Silent t s s' := by
  have hrf : Silent t s s := refl s
  refine sat_assert_bind fun _ => .next (sat_get.2 (.ite (fun h => ?_) fun _ => ?_))
  · exact sat_pure.2 ⟨hrf, .inl h⟩
  refine sat_read_bind fun d hd => .next (sat_allocate ?_ ?_)
  swap
  · exact fun ho => ⟨HasOom.of_oom (show oom from ho) _, hrf⟩
  have hd := of_connectionData hd
  refine sat_read_bind fun tr htr => .next (sat_modify.2 (.ite (fun han => ?_) fun _ => ?_))
  · -- the connection is listed: it has a message of the transaction
    have htr := of_transaction htr
    have hin : InTransaction t s → c ∈ tr.connections := by
      intro hr
      obtain ⟨w, hw, -⟩ := any_eq_true.1 han
      obtain ⟨-, tr0, htr0, hin⟩ := hr.listed c d hd w hw
      rw [htr] at htr0
      cases htr0
      exact hin
    have hp := silent_put (s.putMessage c ⟨t, m⟩) hd htr (List.Subset.refl _) hin rfl rfl htr rfl rfl
    exact sat_pure.2 ⟨hp.1, .inr hp.2⟩
  · have hl : ∀ s1 : Bus, (s1.setTransaction t (some { tr with
        connections := c :: tr.connections })).transactions t =
          some { tr with connections := c :: tr.connections } :=
      fun s1 => update_self t _ _
    have hp := silent_put ((s.putMessage c ⟨t, m⟩).setTransaction t
          (some { tr with connections := c :: tr.connections })) hd (of_transaction htr)
      (subset_cons_self c _) (fun _ => mem_cons_self) rfl rfl (hl _) rfl rfl
    refine .next (.onError (sat_allocate (sat_modify.2 ⟨hp.1, .inr hp.2⟩) fun ho => ?_))
    rw [sat_modify, s.dropMessage_putMessage]
    exact ⟨HasOom.of_oom (show oom from ho) _, hrf⟩

theorem carries_silent : Carries oom t (Silent t) where
  broadcast _ htr := silent_setTransaction htr rfl
  send c m _ := .imp (sat_send c m) fun _ _ h => h.1
  same h := h.sameMail.silent
  hook _ htr := silent_setTransaction htr rfl

theorem carries_mails : Carries oom t (Mails t) where
  broadcast _ htr := Silent.mails (silent_setTransaction htr rfl)
  send c m _ := Sat.mono (sat_send c m) (fun _ _ h => h.1.1) fun _ _ h => ⟨h.1, h.2.1⟩
  same h := h.sameMail.mails
  hook _ htr := Silent.mails (silent_setTransaction htr rfl)

theorem posts_mails : Posts oom t (Mails t) := carries_mails.toPosts

/-! ## Pending replies come and go -/

theorem moved_replies (hr : InTransaction t s) (hc : s'.connections = s.connections)
    (ht : s'.transactions = s.transactions) (ha : s'.activation = s.activation)
    (hn : s'.nextConnection = s.nextConnection)
    (hsr : ∀ r ∈ s'.pendingReplies, r.replySerial ≠ 0)
    (hl : ∀ r ∈ s.pendingReplies, r ∈ s'.pendingReplies ∨ X r) :
    InTransaction t s' ∧ Advance t X s s' := by
  have hm : Advance t X s s' := .of_connections hc hn hl
  refine ⟨⟨hr.toKept.mono hm.toLater ha hsr, fun c d hd => ?_⟩, hm⟩
  rw [hc] at hd
  rw [ht]
  exact hr.listed c d hd

theorem leads_expectReply (env : BusEnv) (c b : ℕ) (hm : m.serial ≠ 0) :
    LeadsAny oom (Mails t) s (busConnectionsExpectReply env t c b m) := by
  refine .ite (fun _ => .pure) fun _ => .get ?_
  refine leads_guard nofun ?_
  refine leads_guard nofun (leads_allocate_bind ?_)
  have hadd : Mails t s { s with
      pendingReplies := ⟨s.nextReply, c, some b, m.serial⟩ :: s.pendingReplies
      nextReply := s.nextReply + 1 } := by
    intro hr
    refine moved_replies hr rfl rfl rfl rfl ?_ fun r hr => .inl (mem_cons_of_mem _ hr)
    intro r hmm
    rcases mem_cons.1 hmm with rfl | hmm
    · exact hm
    · exact hr.serial r hmm
  refine Sat.next (sat_modify.2 (Sat.next (.onError (sat_allocate ?_ fun ho => sat_modify.2 ?_))))
  · exact .mono (leads_addCancelHook carries_mails _) (fun _ _ h => trans_of (Mails t) hadd h)
      fun _ _ h => ⟨h.1, trans_of (Mails t) hadd h.2⟩
  · refine ⟨HasOom.of_oom (show oom from ho) _, fun hr => ?_⟩
    exact moved_replies hr rfl rfl rfl rfl hr.serial fun _ hr => .inl hr

/-- The pending reply that a message of `c` to `b` answers. -/
def Due (c b : ℕ) (m : BusMessage) (r : BusPendingReply) : Prop :=
  r.replySerial = m.replySerial ∧ r.willGetReply = b ∧ r.willSendReply = some c

/-- The pending replies are as before, but for the one that a message answers. -/
def Consumes (t c b : ℕ) (m : BusMessage) (s s' : Bus) : Prop :=
  InTransaction t s → InTransaction t s' ∧ Advance t (Due c b m) s s'

theorem consumes_erase {tr tr' : BusTransaction} (htr : s.transactions t = some tr)
    (htr' : tr'.connections = tr.connections) (hr : Due c b m r) : Consumes t c b m s
      { s.setTransaction t (some tr') with pendingReplies := s.pendingReplies.erase r } := by
  intro hrd
  obtain ⟨hrd1, hm1⟩ := (silent_setTransaction htr htr').1 hrd
  have her : InTransaction t { s.setTransaction t (some tr') with
      pendingReplies := s.pendingReplies.erase r } ∧ Advance t (Due c b m) (s.setTransaction t (some tr'))
        { s.setTransaction t (some tr') with pendingReplies := s.pendingReplies.erase r } := by
    refine moved_replies hrd1 rfl rfl rfl rfl (fun r' h => ?_) fun r' h => ?_
    · exact hrd.serial r' (mem_of_mem_erase h)
    · by_cases he : r' = r
      · exact .inr (he ▸ hr)
      · exact .inl ((mem_erase_of_ne he).2 h)
  exact ⟨her.1, hm1.weaken.trans her.2⟩

theorem sat_checkReply (c b : ℕ) (m : BusMessage) :
    Sat (lenient False) (busConnectionsCheckReply t c b m) s
      (fun found s' => (found = false ∧ s' = s) ∨ (found = true ∧ Consumes t c b m s s'))
      fun _ _ => False := by
  refine .next (sat_get.2 ?_)
  cases hfn : s.pendingReplies.find? fun r => r.replySerial = m.replySerial ∧
      r.willGetReply = b ∧ r.willSendReply = some c with
  | none => exact sat_pure.2 (.inl ⟨rfl, rfl⟩)
  | some pending =>
    have hdu : Due c b m pending := by simpa [Due] using find?_some hfn
    refine .next (sat_allocate ?_ False.elim)
    refine .next (sat_read_bind fun tr htr => sat_modify.2 ?_)
    refine .next (sat_modify.2 (sat_pure.2 (.inr ⟨rfl, fun hr => ?_⟩)))
    exact consumes_erase (of_transaction htr) rfl hdu hr

/-- The check of a message from its sender to the one it is addressed to: a reply that is
    taken off the list is not refused. -/
theorem sat_policy {env : BusEnv} (henv : LetsRepliesPass env) (hm : m.Proper) (c b : ℕ) :
    Sat (lenient False) (busContextCheckSecurityPolicy env t (some c) (some b) (some b) m) s
      (fun _ s' => s.isActive c = true ∧ Consumes t c b m s s')
      fun e s' => AnyError False e ∧ Mails t s s' := by
  have hrf : Mails t s s := refl s
  have hre : ∀ {β : Type} {Q : β → Bus → Prop},
      Sat (lenient False) (refuse env m) s Q fun e s' => AnyError False e ∧ Mails t s s' :=
    .next (sat_get.2 (sat_fail (by decide) fun _ he => ⟨he, hrf⟩))
  have hsn : Sat (lenient False) (checkSender env t (some c) (some b) (some b) m) s
      (fun requested s' => s.isActive c = true ∧ ((requested = some false ∧ s' = s) ∨
        (requested = some true ∧ m.replySerial ≠ 0 ∧ Consumes t c b m s s')))
      fun e s' => AnyError False e ∧ Mails t s s' := by
    refine .next (sat_get.2 (.ite (fun _ => hre) fun _ => .ite (fun hac => ?_) ?_))
    · refine .ite (fun h => ?_) fun _ => sat_pure.2 ⟨hac, .inl ⟨rfl, rfl⟩⟩
      refine .next ((sat_checkReply c b m).mono ?_ fun _ _ => False.elim)
      rintro found s' (⟨rfl, rfl⟩ | ⟨rfl, hcn⟩)
      · exact sat_pure.2 ⟨hac, .inl ⟨rfl, rfl⟩⟩
      · exact sat_pure.2 ⟨hac, .inr ⟨rfl, h.1, hcn⟩⟩
    · intro _
      refine .ite (fun h => ?_) fun _ => sat_fail (by decide) fun _ he => ⟨he, hrf⟩
      cases h.1
  refine .next (sat_get.2 (sat_assert_bind fun _ => sat_assert_bind fun _ => ?_))
  split
  · exact sat_fail (by decide) fun _ he => ⟨he, hrf⟩
  · exact sat_fail (by decide) fun _ he => ⟨he, hrf⟩
  · refine .next (hsn.imp ?_)
    rintro _ s' ⟨hac, ⟨rfl, rfl⟩ | ⟨rfl, hsr, hcn⟩⟩
    · -- the message is not a requested reply: what is refused was not taken off
      refine .next (sat_get.2 (sat_assert_bind fun _ => .ite (fun _ => hre) fun _ => ?_))
      have hrs : LeadsAny False (Mails t) s'
          (checkRecipient env (some c) (some b) (some b) false m >>= fun _ =>
            if m.type = .methodCall ∧ some b = some b then busConnectionsExpectReply env t c b m
            else pure ()) := by
        refine .bind (leads_checkRecipient env _ _ _ _ _) fun _ s1 _ => ?_
        exact .ite (fun _ => leads_expectReply env c b hm.1) fun _ => .pure
      refine .mono hrs (fun _ s1 h => ⟨hac, fun hr => ?_⟩) fun _ _ h => h
      obtain ⟨hr1, hm1⟩ := h hr
      exact ⟨hr1, hm1.weaken⟩
    · refine .next (sat_get.2 (sat_assert_bind fun _ => .ite (fun h => ?_) fun _ => ?_))
      · obtain ⟨_, ⟨⟩, h⟩ := h
        simp [henv.send] at h
      · refine .next (.next (sat_get.2 ?_))
        refine .ite (fun h => ?_) fun _ => .ite (fun h => ?_) fun _ => sat_pure.2 ?_
        · rw [henv.receive] at h
          cases h.2
        · simp [henv.room] at h
        · exact .ite (fun h => absurd (hm.2 h.1) hsr) fun _ => sat_pure.2 ⟨hac, hcn⟩

theorem mails_of_consumes {s1 s2 : Bus} (hac : s.isActive c = true) (hse : s.SentBy c m)
    (hcn : Consumes t c b m s s1) (hsl : Silent t s1 s2)
    (hb : s2.isConnected b = false ∨ s2.Holds t b m) : Mails t s s2 := by
  intro hr
  obtain ⟨hr1, hm1⟩ := hcn hr
  obtain ⟨hr2, hm2⟩ := hsl.1 hr1
  have hm : Advance t (Due c b m) s s2 := hm1.trans hm2.weaken
  refine ⟨hr2, hm.toLater, fun r h => ?_, hm.held, hm.outgoing⟩
  rcases hm.replies r h with hin | han | ⟨hsr, rfl, hc⟩
  · exact .inl hin
  · exact .inr (.inl han)
  · refine .inr (.inl (hb.imp (fun hb => hb) fun hh => ⟨m, hh, hsr.symm, .inr ?_⟩))
    obtain ⟨d, hd⟩ : ∃ d, (s.connections c).data = some d := by
      cases hd : (s.connections c).data with
      | none => simp [Bus.isActive, hd] at hac
      | some d => exact ⟨d, rfl⟩
    obtain ⟨name, hnm, hsn⟩ := hse.sender d hd
    exact ⟨c, name, hc, hm.names c name (by simp [Bus.connectionName, hd, hnm]), hsn⟩

theorem sat_forward {s1 : Bus} (hac : s.isActive c = true) (hsn : s.SentBy c m)
    (hcn : Consumes t c b m s s1) :
    Sat (lenient False) (busTransactionSend t b m) s1 (fun _ s2 => Mails t s s2)
      fun _ _ => False := by
  refine .mono (sat_send (N := MemoryError False) b m) ?_ fun _ _ h => h.1
  rintro _ s2 ⟨hsl, hb⟩
  exact mails_of_consumes hac hsn hcn hsl hb

/-! ## Matches and activation -/

variable (env : BusEnv)

theorem leads_matches (c : ℕ) (addressed : Option ℕ) (m : BusMessage) : LeadsAny oom (Mails t) s
      (busDispatchMatches env t (some c) addressed m) := by
  refine leads_matches_of env fun b s1 => ?_
  exact Sat.mono (sat_send b m) (fun _ _ h => h.1.1) fun _ _ h => ⟨h.1, h.2.1⟩

variable {env} {name : List UInt8}

section
variable (henv : LetsRepliesPass env) (service : ℕ)
include henv

theorem leads_handOver {e : BusPendingActivationEntry}
    (hsn : s.SentBy e.connection e.activationMessage) :
    LeadsAny False (Mails t) s (handOver env t service e) := by
  refine .get (.ite (fun _ => ?_) fun _ => .pure)
  have hsm : Leads (lenient False) (fun _ => False) (· = ·) s
    (busServiceGetPrimaryOwnersConnection service) := leads_primaryConnection service
  refine Sat.bind hsm ?_ fun _ _ h => h.1.elim
  rintro (_ | b) s' rfl
  · exact Leads.bind (leads_policy_apart env (by simp)) fun _ _ _ => leads_assert
  · refine .bind (sat_policy henv hsn.proper e.connection b) ?_ fun _ _ h => h
    rintro _ s1 ⟨hac, hcn⟩
    exact (sat_forward hac hsn hcn).mono (fun _ _ h => h) fun _ _ => False.elim

theorem leads_handOverAll (entries : List BusPendingActivationEntry) (hr : InTransaction t s)
    (hsn : ∀ e ∈ entries, s.SentBy e.connection e.activationMessage) :
    LeadsAny False (Mails t) s (forEach (handOver env t service) entries) := by
  induction entries generalizing s with
  | nil => exact .pure
  | cons e es ih =>
    refine .bind (leads_handOver henv service (hsn e mem_cons_self)) ?_
    intro _ s' hs'
    obtain ⟨hr', hm⟩ := hs' hr
    exact ih hr' fun e' he' => (hsn e' (mem_cons_of_mem _ he')).mono hm.toLater

theorem leads_sendPending (hr : InTransaction t s) : LeadsAny False (Mails t) s
      (busActivationSendPendingAutoActivationMessages env service t) := by
  refine leads_read fun sv _ => .get ?_
  cases s.pendingActivation sv.name with
  | none => exact .pure
  | some pending =>
    refine leads_read fun p hp => ?_
    refine .bind (leads_handOverAll henv service p.entries hr ?_) fun _ s1 _ => ?_
    · exact hr.entries pending p (of_pending hp)
    · refine leads_allocate_bind ?_
      refine .bind (carries_mails.always (always_pendingRef pending) s1) fun _ s2 _ => ?_
      refine .bind (leads_addCancelHook carries_mails _) fun _ s3 _ => ?_
      exact carries_mails.always (always_removePending sv.name) s3

end

theorem mails_keep {p : ℕ} {q : BusPendingActivation} (auto : Bool) (hsn : s.SentBy c m)
    (hq : ∀ e ∈ q.entries, e = ⟨m, c, auto⟩ ∨
      ∃ q0, s.activation.pendings p = some q0 ∧ e ∈ q0.entries)
    (hc : s'.connections = s.connections) (hp : s'.pendingReplies = s.pendingReplies)
    (ht : s'.transactions = s.transactions) (hn : s'.nextConnection = s.nextConnection)
    (ha : s'.activation.pendings = Function.update s.activation.pendings p (some q)) :
    Mails t s s' := by
  intro hr
  have hm : Advance t (fun _ => False) s s' :=
    .of_connections hc hn fun r hr => .inl (by rw [hp]; exact hr)
  refine ⟨⟨⟨fun p' q' hq' e he => ?_, by rw [hp]; exact hr.serial, fun c h => ?_⟩,
    fun c d hd => ?_⟩, hm⟩
  · rw [ha, update_apply] at hq'
    split at hq'
    · cases hq'
      rcases hq e he with rfl | ⟨q0, hq0, he0⟩
      · exact hsn.mono hm.toLater
      · exact (hr.entries p q0 hq0 e he0).mono hm.toLater
    · exact (hr.entries p' q' hq' e he).mono hm.toLater
  · rw [hn] at h
    exact hm.gone c (hr.fresh c h)
  · rw [hc] at hd
    rw [ht]
    exact hr.listed c d hd

theorem leads_pendingHook (name : List UInt8) (pending : ℕ) : LeadsAny oom (Mails t) s
      (allocate.onError (removePendingActivation name)) ∧
    LeadsAny oom (Mails t) s (busPendingActivationRef pending) ∧
    LeadsAny oom (Mails t) s (addCancelHook t (.cancelPending pending)) :=
  ⟨.onError leads_allocate (carries_mails.always (always_removePending name)),
    carries_mails.always (always_pendingRef pending) s, leads_addCancelHook carries_mails _⟩

theorem leads_startProgram (pending : ℕ) (name : List UInt8) (entry : BusActivationEntry) :
    LeadsAny oom (Mails t) s (startProgram env pending name entry) := by
  have hcm : ∀ s1, LeadsAny oom (Mails t) s1 (activationCommand env name entry) := by
    intro s1
    unfold activationCommand
    split
    · exact .pure
    · exact leads_guard nofun .pure
  refine leads_allocate_bind (.bind (hcm s) fun command s1 _ => ?_)
  refine .bind (.onError leads_ofExcept
    (carries_mails.always (always_removePending name))) fun _ s2 _ => leads_allocate_bind ?_
  refine .bind leads_ofExcept fun _ s3 _ => leads_read fun p hp => .modify ?_
  refine SameMail.mails (Aside.sameMail (aside_setPending rfl rfl ?_))
  rintro _ ⟨⟩
  exact ⟨p, of_pending hp, rfl⟩

theorem leads_activate (c : ℕ) (auto : Bool) (name : List UInt8) (hsn : s.SentBy c m) :
    LeadsAny oom (Mails t) s (busActivationActivateService env c t auto m name) := by
  refine .get (leads_guard nofun (leads_allocate_bind ?_))
  have hen : LeadsAny oom (· = ·) s (BusM.ofExcept (env.findEntry name)) := leads_ofExcept
  refine Sat.bind hen ?_ ?_
  swap
  · rintro e s' ⟨he, rfl⟩
    exact ⟨he, refl s⟩
  rintro entry s' rfl
  refine .ite (fun _ => leads_sendReply posts_mails env _ _ _) fun _ => leads_allocate_bind ?_
  cases s.pendingActivation name with
  | some pending =>
    refine .bind (leads_read fun p hp => .modify ?_) fun _ s1 _ => ?_
    · refine mails_keep auto hsn (fun e he => ?_) rfl rfl rfl rfl rfl
      rcases mem_append.1 he with he | he
      · exact .inr ⟨p, of_pending hp, he⟩
      · exact .inl (mem_singleton.1 he)
    · refine .bind (leads_pendingHook name pending).1 fun _ s2 _ => ?_
      exact .bind (leads_pendingHook name pending).2.1 fun _ s3 _ =>
        (leads_pendingHook name pending).2.2
  | none =>
    have hnw : LeadsAny oom (Mails t) s (newPendingActivation name entry.exec ⟨m, c, auto⟩) := by
      refine .get (.bind (.modify ?_) fun _ _ _ => .pure)
      refine mails_keep auto hsn (fun e he => ?_) rfl rfl rfl rfl rfl
      exact .inl (mem_singleton.1 he)
    refine .bind hnw fun pending s1 _ => ?_
    refine .bind (leads_pendingHook name pending).1 fun _ s2 _ => ?_
    refine .bind (leads_pendingHook name pending).2.1 fun _ s3 _ => ?_
    refine .bind (leads_pendingHook name pending).2.2 fun _ s4 _ => ?_
    exact .ite (fun _ => .pure) fun _ => leads_startProgram pending name entry

/-! ## The driver -/

theorem leads_acquire (henv : LetsRepliesPass env) (c : ℕ) (name : List UInt8) (flags : NameFlags)
    (hr : InTransaction t s) :
    LeadsAny False (Mails t) s (busRegistryAcquireService env c name flags t) := by
  refine .bind (leads_requestedName carries_mails env c name) fun name s1 h1 => ?_
  refine .bind (leads_checkAcquire env c name) fun _ s2 h2 => .get ?_
  have hr2 : InTransaction t s2 := (h2 (h1 hr).1).1
  cases s2.registry.lookup name with
  | none =>
    refine .bind (leads_ensure carries_mails env name c flags) fun service s3 h3 => ?_
    refine .bind (leads_primaryConnection service) fun _ s4 h4 => ?_
    refine .bind leads_assert fun _ s5 h5 => ?_
    exact .bind (leads_sendPending henv service (h5 (h4 (h3 hr2).1).1).1) fun _ _ _ => .pure
  | some service =>
    refine .bind (leads_primaryOwner service) ?_
    rintro (_ | primary) s3 h3
    · exact .bind leads_assert fun _ _ _ => .pure
    · refine .bind (leads_requestOwned carries_mails env service c primary flags) ?_
      intro reply s4 h4
      exact .bind (leads_sendPending henv service (h4 (h3 hr2).1).1) fun _ _ _ => .pure

theorem mails_named (hd : (s.connections c).data = some d) (hnm : d.name = none)
    (hc : s'.connections = (s.setData c fun d => { d with name := some name }).connections)
    (hp : s'.pendingReplies = s.pendingReplies) (ht : s'.transactions = s.transactions)
    (ha : s'.activation = s.activation) (hn : s'.nextConnection = s.nextConnection) :
    Mails t s s' := by
  have hm : Advance t (fun _ => False) s s' := by
    refine .of_setData hd hc (fun w hw => hw) (fun name h => ?_) hp hn
    simp [hnm] at h
  refine fun hr => ⟨⟨hr.toKept.mono hm.toLater ha ?_, fun c' d' hd' w hw => ?_⟩, hm⟩
  · rw [hp]
    exact hr.serial
  · rw [ht]
    rcases setData_connections hd hc c' with h | ⟨rfl, h⟩
    · rw [h] at hd'
      exact hr.listed c' d' hd' w hw
    · rw [h] at hd'
      cases hd'
      exact hr.listed c' d hd w hw

theorem leads_complete (c : ℕ) (name : List UInt8) :
    LeadsAny oom (Mails t) s (busConnectionComplete env c name) := by
  refine leads_read fun d hd => leads_assert_bind fun hnm => leads_allocate_bind ?_
  have hend : ∀ s1 : Bus, s1.connections = s.connections →
      LeadsAny oom (Mails t) s1 (allocate >>= fun _ => get >>= fun bus =>
        BusM.assert (0 < bus.nIncomplete) >>= fun _ =>
          modify fun bus => { (bus.setData c fun d => { d with name := some name }) with
            incomplete := bus.incomplete.erase c
            nIncomplete := bus.nIncomplete - 1
            completed := bus.completed ++ [c]
            nCompleted := bus.nCompleted + 1 }) := by
    intro s1 hs1
    refine leads_allocate_bind (.get (leads_assert_bind fun _ => .modify ?_))
    refine mails_named (by rw [hs1]; exact of_connectionData hd) hnm rfl rfl rfl rfl rfl
  have hp : LeadsAny oom (· = ·) s (BusM.ofExcept (env.createClientPolicy c)) := leads_ofExcept
  refine Sat.bind hp ?_ ?_
  swap
  · rintro e s' ⟨he, rfl⟩
    exact ⟨he, refl s⟩
  rintro _ s' rfl
  cases env.unixUser c with
  | none => exact hend s rfl
  | some uid =>
    refine Leads.seq (Q := fun _ s1 => s1.connections = s.connections) (sat_adjust
      (.inr fun _ => trivial) (fun new _ _ => ⟨?_, rfl⟩) fun ho _ => ?_) fun _ s1 _ hs1 => hend s1 hs1
    · exact SameMail.mails (.of_eq rfl rfl rfl rfl rfl)
    · exact ⟨HasOom.of_oom (show oom from ho) _, refl s⟩

theorem leads_hello (c : ℕ) (m : BusMessage) :
    LeadsAny oom (Mails t) s (busDriverHandleHello env c t m) := by
  refine .get (.ite (fun _ => leads_fail (by decide)) fun _ => ?_)
  refine .bind (leads_checkLimits env c) fun _ s1 _ => ?_
  refine .bind (carries_mails.always (always_createUniqueName _) s1) fun name s2 _ => ?_
  refine .bind (leads_complete c name) fun _ s3 _ => leads_allocate_bind ?_
  refine .bind (leads_sendReply posts_mails env _ _ _) fun _ s4 _ => ?_
  exact .bind (leads_ensure carries_mails env _ _ _) fun _ _ _ => .pure

theorem leads_handler (henv : LetsRepliesPass env) (method : DriverMethod)
    (hr : InTransaction t s) (hsn : method ≠ .hello → s.SentBy c m) :
    LeadsAny False (Mails t) s (method.handler env c t m) := by
  have hnm : ∀ {f : Answer}, LeadsAny False (Mails t) s
      (answerName f env c t m >>= fun _ => pure m) :=
    .bind (leads_answerName posts_mails env _ c m) fun _ _ _ => .pure
  have han : ∀ {f : BusEnv → Bus → Res (Except PlainError (List Value))}, LeadsAny False (Mails t) s
        (answer f env c t m >>= fun _ => pure m) :=
    .bind (leads_answer posts_mails env _ c m) fun _ _ _ => .pure
  cases method with
  | hello => exact leads_hello c m
  | requestName =>
    refine .bind ?_ fun _ _ _ => .pure
    unfold busDriverHandleAcquireService
    split
    · exact .bind (leads_acquire henv c _ _ hr) fun _ _ _ => leads_sendReply posts_mails env _ _ _
    · exact leads_fail nofun
  | releaseName => exact .bind (leads_handleRelease carries_mails env c m) fun _ _ _ => .pure
  | startServiceByName =>
    refine .bind ?_ fun _ _ _ => .pure
    unfold busDriverHandleActivateService
    split
    · exact leads_activate c false _ (hsn (by decide))
    · exact leads_fail nofun
  | updateActivationEnvironment =>
    exact .bind (leads_handleEnvironment carries_mails env c m) fun _ _ _ => .pure
  | addMatch =>
    exact .bind (leads_handleAddMatch carries_mails env SameMail.mails c m) fun _ _ _ => .pure
  | removeMatch =>
    exact .bind (leads_handleRemoveMatch carries_mails env SameMail.mails c m) fun _ _ _ => .pure
  | listNames | listActivatableNames | reloadConfig | getId => exact han
  | _ => exact hnm

theorem leads_handleMessage (henv : LetsRepliesPass env) (hr : InTransaction t s)
    (hsn : s.SentBy c m ∨ m.isMethodCall interfaceDBus "Hello" = true) :
    LeadsAny False (Mails t) s (busDriverHandleMessage env c t m) := by
  refine .ite (fun _ => .pure) fun _ => .ite (fun _ => ?_) fun _ => ?_
  · exact .bind (leads_answer posts_mails env _ c m) fun _ _ _ => .pure
  · refine .next (sat_lift.2 ?_)
    cases hmm : m.member with
    | none => trivial
    | some member =>
    refine leads_guard nofun (leads_assert_bind fun _ => ?_)
    cases hfn : DriverMethod.all.find? fun method => asciiBytes method.name = member with
    | none => exact leads_fail nofun
    | some method =>
      refine .ite (fun _ => leads_handler henv method hr fun hne => ?_) fun _ => ?_
      · refine hsn.resolve_right fun hh => hne ?_
        have hm : m.member = some (asciiBytes "Hello") := by
          simp only [BusMessage.isMethodCall, decide_eq_true_eq] at hh
          exact hh.2.2
        rw [hmm, some_inj] at hm
        subst hm
        have hfr : DriverMethod.all.find?
            (fun method => asciiBytes method.name = asciiBytes "Hello") = some .hello := by decide
        rw [hfr] at hfn
        exact (some_inj.1 hfn).symm
      · exact leads_fail nofun

/-! ## Dispatching -/

theorem Bus.isActive_iff : s.isActive c = true ↔ ∃ name, s.connectionName c = some name := by
  cases hd : (s.connections c).data with
  | none => simp [Bus.isActive, Bus.connectionName, hd]
  | some d => simp [Bus.isActive, Bus.connectionName, hd, isSome_iff_exists]

theorem Kept.sentBy (hk : Kept s) (hm : m.Proper) (hnm : s.connectionName c = some name)
    (hsn : m.sender = some name) : s.SentBy c m := by
  refine ⟨hm, ?_, fun d hd => ⟨name, ?_, hsn⟩⟩
  · by_contra hc
    simp [Bus.connectionName, hk.fresh c (Nat.le_of_not_lt hc)] at hnm
  · simpa [Bus.connectionName, hd] using hnm

theorem lost_data (c c' : ℕ) : ((s.setConnection c fun x => { x with connected := false }
    ).connections c').data = (s.connections c').data ∧
    ((s.setConnection c fun x => { x with connected := false }).connections c').outgoing =
      (s.connections c').outgoing := by
  simp only [Bus.setConnection, update_apply]
  split
  · rename_i h
    subst h
    exact ⟨rfl, rfl⟩
  · exact ⟨rfl, rfl⟩

theorem moved_lost (c : ℕ) :
    Advance t X s (s.setConnection c fun x => { x with connected := false }) := by
  refine ⟨⟨fun c' h => ?_, fun c' name h => ?_, fun c' h => ?_, rfl⟩, fun _ h => .inl h, ?_,
    fun c' => (lost_data c c').2⟩
  · simp only [Bus.isConnected, Bus.setConnection, update_apply]
    split
    · rfl
    · exact h
  · rw [Bus.connectionName, (lost_data c c').1]
    exact h
  · rw [(lost_data c c').1]
    exact h
  · rintro c' m ⟨d, hd, hm⟩
    exact ⟨d, by rw [(lost_data c c').1]; exact hd, hm⟩

theorem kept_lost (hk : Kept s) (c : ℕ) :
    Kept (s.setConnection c fun x => { x with connected := false }) :=
  hk.mono (moved_lost (t := 0) (X := fun _ => False) c).toLater rfl hk.serial

theorem mails_lost (c : ℕ) :
    Mails t s (s.setConnection c fun x => { x with connected := false }) := by
  intro hr
  refine ⟨⟨kept_lost hr.toKept c, fun c' d hd => ?_⟩, moved_lost c⟩
  rw [(lost_data c c').1] at hd
  exact hr.listed c' d hd

section
variable (henv : LetsRepliesPass env)
include henv

theorem leads_route (name : List UInt8) (hsn : s.SentBy c m) :
    LeadsAny False (Mails t) s (routeToName env c t m name) := by
  refine .get ?_
  cases s.registry.lookup name with
  | none => exact .ite (fun _ => leads_activate c true name hsn) fun _ => leads_fail nofun
  | some service =>
    have hsm : Leads (lenient False) (fun _ => False) (· = ·) s
      (busServiceGetPrimaryOwnersConnection service) := leads_primaryConnection service
    refine Sat.bind hsm ?_ fun _ _ h => h.1.elim
    rintro (_ | b) s' rfl
    · exact leads_assert
    · refine .bind (sat_policy henv hsn.proper c b) ?_ fun _ _ h => h
      rintro _ s1 ⟨hac, hcn⟩
      refine .bind (sat_forward hac hsn hcn) ?_ fun _ _ => False.elim
      intro _ s2 hs2
      refine .mono (leads_matches env c (some b) m) (fun _ _ h => trans_of (Mails t) hs2 h) ?_
      exact fun _ _ h => ⟨h.1, trans_of (Mails t) hs2 h.2⟩

theorem leads_dispatchTo (hr : InTransaction t s) (hsn : s.isActive c = true → s.SentBy c m) :
    LeadsAny False (Mails t) s (if m.destination = some serviceDBus then do
        busContextCheckSecurityPolicy env t (some c) none none m
        let m ← busDriverHandleMessage env c t m
        busDispatchMatches env t (some c) none m
      else if s.isActive c = false then
        modify (·.setConnection c fun c => { c with connected := false })
      else
        match m.destination with
        | some name => routeToName env c t m name
        | none => busDispatchMatches env t (some c) none m) := by
  refine Leads.ite (fun _ => ?_) fun _ => Leads.ite (fun _ => ?_) fun hat => ?_
  · refine Sat.bind (sat_policy_apart env nofun) ?_ ?_
    · rintro _ s' ⟨rfl, hac⟩
      refine Leads.bind (leads_handleMessage henv hr (hac.imp_left hsn)) fun m' s1 _ => ?_
      exact leads_matches env c none m'
    · rintro e s' ⟨he, rfl⟩
      exact ⟨he, refl s'⟩
  · exact .modify (mails_lost c)
  · have hac : s.isActive c = true := by simpa using hat
    cases m.destination with
    | some name => exact leads_route henv name (hsn hac)
    | none => exact leads_matches env c none m

theorem leads_dispatchMessage (hm : m.Proper) (hr : InTransaction t s) :
    LeadsAny False (Mails t) s (busDispatchMessage env c t m) := by
  refine .get ?_
  cases hnm : s.connectionName c with
  | none =>
    refine .next (sat_pure.2 (leads_dispatchTo henv hr fun hac => ?_))
    obtain ⟨name, hnm'⟩ := Bus.isActive_iff.1 hac
    rw [hnm] at hnm'
    cases hnm'
  | some name =>
    refine .next (.next (sat_allocate (sat_pure.2 ?_) False.elim))
    exact leads_dispatchTo henv hr fun _ =>
      hr.toKept.sentBy (m := { m with sender := some name }) hm hnm rfl

end

end

end DBus
