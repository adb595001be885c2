/-
  Transactions are all or nothing, and keep the order of their messages.

  A message that is sent successfully is noted with its transaction (`Deliveries`), executing
  the transaction appends what has been noted to the queues, and cancelling forgets it.  The
  lists of the daemon implement this over every run of events (`transactions_deliver`).
-/
import DBus.Bus.Dispatch
import DBus.Lib.Always

namespace DBus

open BusM Eff Outcome List Function BusConnection

/-! ## Events -/

/-- What happens to transactions. -/
inductive TransactionEvent where
  | lost (connection : ℕ)
  | disconnected (connection : ℕ)
  | new
  | send (transaction connection : ℕ) (message : BusMessage)
  | execute (transaction : ℕ)
  | cancel (transaction : ℕ)

/-- What the daemon does; of `bus_connection_disconnected`, what is about transactions. -/
def transactionStep : TransactionEvent → BusM Unit
  | .lost connection => modify (·.setConnection connection fun c => { c with connected := false })
  | .disconnected connection => do
    modify (·.setConnection connection fun c => { c with connected := false })
    busConnectionRemoveTransactions connection
    modify (·.setConnection connection fun c => { c with data := none })
  | .new => do
    let _ ← busTransactionNew
    return
  | .send transaction connection message => busTransactionSend transaction connection message
  | .execute transaction => busTransactionExecuteAndFree transaction
  | .cancel transaction => busTransactionCancelAndFree transaction

/-- An event is about a transaction that is open, and a connection that there is. -/
def TransactionEvent.Possible (s : Bus) : TransactionEvent → Prop
  | .lost _ => True
  | .disconnected c => (s.connections c).data.isSome
  | .new => True
  | .send t _ m => (s.transactions t).isSome ∧ m.sender ≠ none
  | .execute t => (s.transactions t).isSome
  | .cancel t => (s.transactions t).isSome

/-! ## What transactions are for -/

/-- The messages sent through each open transaction, and those queued on each connection. -/
structure Deliveries where
  next : ℕ
  sent : ℕ → Option (List (ℕ × BusMessage))
  queued : ℕ → List BusMessage

def messagesTo (c : ℕ) (sent : List (ℕ × BusMessage)) : List BusMessage :=
  (sent.filter (·.1 = c)).map (·.2)

def Deliveries.after (d : Deliveries) : TransactionEvent → Except DBusError Unit → Deliveries
  | .new, .ok _ => { d with next := d.next + 1, sent := Function.update d.sent d.next (some []) }
  | .send t c m, .ok _ =>
    { d with sent := Function.update d.sent t ((d.sent t).map (· ++ [(c, m)])) }
  | .execute t, .ok _ =>
    { d with
      sent := Function.update d.sent t none
      queued := fun c => d.queued c ++ messagesTo c ((d.sent t).getD []) }
  | .cancel t, .ok _ => { d with sent := Function.update d.sent t none }
  | _, _ => d

/-- No transaction is open, and no message waits. -/
structure Bus.Quiet (s : Bus) : Prop where
  closed : ∀ t, s.transactions t = none
  empty : ∀ c x, (s.connections c).data = some x → x.transactionMessages = []
  live : ∀ c, s.isConnected c = true → (s.connections c).data.isSome

/-- The runs of the daemon, whatever becomes of the allocations, with what they mean. -/
inductive TransactionRun : Bus → Deliveries → Prop
  | start {s : Bus} : s.Quiet →
      TransactionRun s ⟨s.nextTransaction, fun _ => none, fun c => (s.connections c).outgoing⟩
  | step {s s' : Bus} {d : Deliveries} (event : TransactionEvent) (fails : List Bool)
      {out : Except DBusError Unit} {rest : List Bool} :
      TransactionRun s d → event.Possible s →
      (transactionStep event).run s fails = (.ok (out, s'), rest) →
      TransactionRun s' (d.after event out)

/-- The messages of a transaction that wait on a connection, the oldest first. -/
def BusConnection.waiting (x : BusConnection) (t : ℕ) : List BusMessage :=
  x.data.elim [] fun d => (d.transactionMessages.filter (·.transaction = t)).reverse.map (·.message)

/-- The state does what transactions are for. -/
structure Bus.Delivers (s : Bus) (d : Deliveries) : Prop where
  queued : ∀ c, s.isConnected c = true → (s.connections c).outgoing = d.queued c
  waiting : ∀ c t sent, s.isConnected c = true → d.sent t = some sent →
    (s.connections c).waiting t = messagesTo c sent
  transactions : ∀ t, (s.transactions t).isSome = (d.sent t).isSome
  finished : ∀ c t, (s.connections c).waiting t ≠ [] → (s.transactions t).isSome
  gone : ∀ t tr, s.transactions t = some tr → ∀ c ∈ tr.connections, (s.connections c).data.isSome

/-! ## One connection -/

namespace BusConnection

variable {x y : BusConnection} {t : ℕ} {queued : List BusMessage} {l : List BusMessage}
  {sent : ℕ → Option (List BusMessage)}

section
variable (x : BusConnection) (t : ℕ)

/-- A connection without the messages of a transaction. -/
def without : BusConnection :=
  { x with data := x.data.map fun d =>
    { d with transactionMessages := d.transactionMessages.filter (·.transaction ≠ t) } }

/-- A connection on which the messages of a transaction have been queued. -/
def executed : BusConnection :=
  { x.without t with outgoing := x.outgoing ++ x.waiting t }

/-- No message of the transaction waits on a connection. -/
def Clear : Prop :=
  ∀ d, x.data = some d → ∀ w ∈ d.transactionMessages, w.transaction ≠ t

end

theorem Clear.without (h : x.Clear t) : x.without t = x := by
  cases x with
  | mk connected data outgoing =>
    cases data with
    | none => rfl
    | some d =>
      have hfl : d.transactionMessages.filter (·.transaction ≠ t) = d.transactionMessages :=
        filter_eq_self.2 fun w hw => by simpa using h d rfl w hw
      simp only [without, Option.map_some, hfl]

theorem waiting_eq_nil : x.waiting t = [] ↔ x.Clear t := by
  cases h : x.data with
  | none | some d => simp [waiting, Clear, h]

theorem Clear.executed (h : x.Clear t) : x.executed t = x := by
  rw [BusConnection.executed, h.without, waiting_eq_nil.2 h, append_nil]

theorem clear_without (x : BusConnection) (t : ℕ) : (x.without t).Clear t := by
  intro d hd w hw
  obtain ⟨x, -, rfl⟩ := Option.map_eq_some_iff.1 hd
  simpa using (mem_filter.1 hw).2

theorem waiting_without (x : BusConnection) (t t' : ℕ) :
    (x.without t).waiting t' = if t' = t then [] else x.waiting t' := by
  split
  · rename_i h
    exact waiting_eq_nil.2 (h ▸ x.clear_without t)
  · rename_i h
    cases hx : x.data with
    | none => simp [waiting, without, hx]
    | some d =>
      simp only [waiting, without, hx, Option.map_some, Option.elim_some, filter_filter]
      congr 2
      refine filter_congr fun w _ => ?_
      by_cases hw : w.transaction = t' <;> simp [hw, h]

/-- A connection has what is sent to it through each transaction, as long as it is there. -/
structure Fits (x : BusConnection) (queued : List BusMessage)
    (sent : ℕ → Option (List BusMessage)) : Prop where
  finished : ∀ t, x.waiting t ≠ [] → (sent t).isSome
  senders : ∀ t, ∀ m ∈ x.waiting t, m.sender ≠ none
  live : x.connected = true →
    x.data.isSome ∧ x.outgoing = queued ∧ ∀ t l, sent t = some l → x.waiting t = l

theorem Fits.finish {queued' : List BusMessage} (h : x.Fits queued sent)
    (hdt : y.data = (x.without t).data) (hcn : y.connected = x.connected)
    (ho : x.connected = true → y.outgoing = queued') :
    y.Fits queued' (Function.update sent t none) := by
  have hw : ∀ t', y.waiting t' = if t' = t then [] else x.waiting t' := by
    intro t'
    rw [← waiting_without, waiting, hdt]
    rfl
  refine ⟨fun t' hne => ?_, fun t' m hm => ?_, fun hy => ?_⟩
  · rw [hw] at hne
    split at hne
    · exact absurd rfl hne
    · rw [update_of_ne ‹_›]
      exact h.finished t' hne
  · rw [hw] at hm
    split at hm
    · cases hm
    · exact h.senders t' m hm
  · rw [hcn] at hy
    obtain ⟨hsm, -, hal⟩ := h.live hy
    refine ⟨by simpa [hdt, without] using hsm, ho hy, fun t' l hl => ?_⟩
    by_cases ht : t' = t
    · simp [ht] at hl
    · rw [update_of_ne ht] at hl
      rw [hw, if_neg ht]
      exact hal t' l hl

theorem Fits.put {m : BusMessage} (h : x.Fits queued sent) (hm : m.sender ≠ none)
    (hl : sent t = some l)
    (hdt : y.data.isSome = x.data.isSome) (hco : y.connected = x.connected)
    (ho : y.outgoing = x.outgoing) (hw : ∀ t', y.waiting t' =
      if t' = t ∧ x.connected = true then x.waiting t' ++ [m] else x.waiting t') :
    y.Fits queued (Function.update sent t (some (l ++ [m]))) := by
  refine ⟨fun t' hne => ?_, fun t' m' hm' => ?_, fun hy => ?_⟩
  · by_cases ht : t' = t
    · simp [ht]
    · rw [hw, if_neg fun hcn => ht hcn.1] at hne
      rw [update_of_ne ht]
      exact h.finished t' hne
  · rw [hw] at hm'
    split at hm'
    · rcases mem_append.1 hm' with hm' | hm'
      · exact h.senders t' m' hm'
      · exact mem_singleton.1 hm' ▸ hm
    · exact h.senders t' m' hm'
  · rw [hco] at hy
    obtain ⟨hsm, hq, hal⟩ := h.live hy
    refine ⟨hdt.trans hsm, ho.trans hq, fun t' l' hl' => ?_⟩
    rw [hw]
    by_cases ht : t' = t
    · subst ht
      rw [update_self, Option.some_inj] at hl'
      rw [if_pos ⟨rfl, hy⟩, hal t' l hl, hl']
    · rw [update_of_ne ht] at hl'
      rw [if_neg fun hcn => ht hcn.1]
      exact hal t' l' hl'

end BusConnection

/-! ## The end of a transaction -/

/-- The messages sent to a connection through each transaction. -/
def Deliveries.sentTo (d : Deliveries) (c t : ℕ) : Option (List BusMessage) :=
  (d.sent t).map (messagesTo c)

/-- What the events keep. -/
structure Agrees (s : Bus) (d : Deliveries) : Prop where
  next : d.next = s.nextTransaction
  unopened : ∀ t, d.next ≤ t → d.sent t = none
  opened : ∀ t, (s.transactions t).isSome = (d.sent t).isSome
  fits : ∀ c, (s.connections c).Fits (d.queued c) (d.sentTo c)
  listed : ∀ t tr, s.transactions t = some tr → tr.cancelHooks = [] ∧ tr.connections.Nodup ∧
    ∀ c, c ∈ tr.connections ↔ (s.connections c).waiting t ≠ []

/-- The runs in which allocations may fail if `oom` holds, and which are not stopped. -/
def strict (oom : Prop) : Mode Stop := ⟨oom, fun _ => False⟩

section
variable {α β : Type} {s s' : Bus} {d : Deliveries} {c t : ℕ} {tr : BusTransaction} {M : Mode Stop}
  {f : BusConnection → BusConnection} {m : BusMessage}

theorem sat_read_ok {f : Bus → Res α} {g : α → BusM β} {a : α} {Q : β → Bus → Prop}
    {E : DBusError → Bus → Prop} (hf : f s = .ok a) (h : Sat M (g a) s Q E) :
    Sat M (read f >>= g) s Q E := by
  refine .next (sat_lift.2 ?_)
  rw [hf]
  exact h

theorem Agrees.data_of_waiting (hne : (s.connections c).waiting t ≠ []) :
    (s.connections c).data.isSome := by
  by_contra hnn
  refine hne (waiting_eq_nil.2 fun x hx => ?_)
  simp [hx] at hnn

theorem Agrees.delivers (h : Agrees s d) : s.Delivers d := by
  refine ⟨fun c hc => ((h.fits c).live hc).2.1, fun c t sent hc ht => ?_, h.opened, fun c t hne => ?_,
    fun t tr htr c hc => data_of_waiting (((h.listed t tr htr).2.2 c).1 hc)⟩
  · exact ((h.fits c).live hc).2.2 t _ (by rw [Deliveries.sentTo, ht, Option.map_some])
  · rw [h.opened]
    simpa [Deliveries.sentTo] using (h.fits c).finished t hne

theorem sat_forEach_connections {step : ℕ → BusM Unit} {P : BusConnection → Prop}
    (hst : ∀ c s, P (s.connections c) →
      Sat M (step c) s (fun _ s' => s' = s.setConnection c f) fun _ _ => False)
    (hf : ∀ x, f (f x) = f x) (hP : ∀ x, P x → P (f x)) {l : List ℕ}
    (hl : ∀ c ∈ l, P (s.connections c)) (hrs : ∀ c ∉ l, f (s.connections c) = s.connections c) :
    Sat M (forEach step l) s
      (fun _ s' => s' = { s with connections := fun c => f (s.connections c) }) fun _ _ => False := by
  induction l generalizing s with
  | nil =>
    refine sat_pure.2 ?_
    have hsm : (fun c => f (s.connections c)) = s.connections :=
      funext fun c => hrs c not_mem_nil
    rw [hsm]
  | cons c l ih =>
    refine .next ((hst c s (hl c mem_cons_self)).imp ?_)
    rintro _ _ rfl
    refine (ih (fun c' hc' => ?_) fun c' hc' => ?_).imp ?_
    · by_cases hcc : c' = c
      · simpa [Bus.setConnection, hcc] using hP _ (hl c mem_cons_self)
      · simpa [Bus.setConnection, hcc] using hl c' (mem_cons_of_mem c hc')
    · by_cases hcc : c' = c
      · simp [Bus.setConnection, hcc, hf]
      · simpa [Bus.setConnection, hcc] using hrs c' (by simp [hcc, hc'])
    · rintro _ _ rfl
      have hsm : (fun c' => f ((s.setConnection c f).connections c')) =
          fun c' => f (s.connections c') := by
        funext c'
        by_cases hcc : c' = c
        · simp [Bus.setConnection, hcc, hf]
        · simp [Bus.setConnection, hcc]
      rw [hsm]
      rfl

theorem Agrees.finish {queued : ℕ → List BusMessage} (h : Agrees s d)
    (hdt : ∀ x, (f x).data = (x.without t).data)
    (hcn : ∀ x, (f x).connected = x.connected)
    (ho : ∀ c, (s.connections c).connected = true → (f (s.connections c)).outgoing = queued c)
    (broadcasts : List BusMessage) : Agrees { s with
      connections := fun c => f (s.connections c)
      transactions := Function.update s.transactions t none
      broadcasts := broadcasts } ⟨d.next, Function.update d.sent t none, queued⟩ := by
  refine ⟨h.next, fun t' ht' => ?_, fun t' => ?_, fun c => ?_, fun t' tr htr => ?_⟩
  · by_cases ht : t' = t
    · simp [ht]
    · simpa [ht] using h.unopened t' ht'
  · by_cases ht : t' = t
    · simp [ht]
    · simpa [ht] using h.opened t'
  · have hsn : Deliveries.sentTo ⟨d.next, Function.update d.sent t none, queued⟩ c =
        Function.update (d.sentTo c) t none := by
      funext t'
      by_cases ht : t' = t <;> simp [Deliveries.sentTo, ht]
    rw [hsn]
    exact (h.fits c).finish (hdt _) (hcn _) (ho c)
  · by_cases ht : t' = t
    · simp [ht] at htr
    · obtain ⟨hh, hnd, hm⟩ := h.listed t' tr (by simpa [ht] using htr)
      refine ⟨hh, hnd, fun c => ?_⟩
      rw [hm, BusConnection.waiting, BusConnection.waiting, hdt]
      change (s.connections c).waiting t' ≠ [] ↔ ((s.connections c).without t).waiting t' ≠ []
      rw [waiting_without, if_neg ht]

section
variable (h : Agrees s d)
include h

theorem Agrees.clear (htr : s.transactions t = some tr) (hc : c ∉ tr.connections) :
    (s.connections c).Clear t := by
  by_contra hcl
  exact hc (((h.listed t tr htr).2.2 c).2 fun hnl => hcl (waiting_eq_nil.1 hnl))

section
variable (ht : (s.transactions t).isSome)
include ht

theorem Agrees.sat_execute : Sat (strict True) (busTransactionExecuteAndFree t) s
      (fun u s' => Agrees s' (d.after (.execute t) (.ok u))) fun _ _ => False := by
  obtain ⟨tr, htr⟩ := Option.isSome_iff_exists.1 ht
  obtain ⟨sent, hsn⟩ := Option.isSome_iff_exists.1 (h.opened t ▸ ht)
  have hst : ∀ c s, ((s.connections c).data.isSome ∧
        ∀ m ∈ (s.connections c).waiting t, m.sender ≠ none) →
      Sat (strict True) (connectionExecuteTransaction t c) s
        (fun _ s' => s' = s.setConnection c (·.executed t)) fun _ _ => False := by
    rintro c s ⟨hc, hsd⟩
    obtain ⟨x, hx⟩ := Option.isSome_iff_exists.1 hc
    refine sat_read_ok (valueOr_eq_ok.2 hx) (.next (sat_check (assert_of fun w hw => ?_)
      (sat_modify.2 ?_)))
    · refine hsd _ ?_
      rw [BusConnection.waiting, hx]
      exact mem_map_of_mem hw
    simp [Bus.setData, Bus.setConnection, BusConnection.executed, BusConnection.without,
      BusConnection.waiting, hx]
  refine sat_read_ok (valueOr_eq_ok.2 htr) (.next ((sat_forEach_connections
    (P := fun x => x.data.isSome ∧ ∀ m ∈ x.waiting t, m.sender ≠ none) hst
    (fun x => Clear.executed (x.clear_without t)) (fun x hx => ⟨?_, fun m hm => ?_⟩)
    (fun c hc => ⟨h.delivers.gone t tr htr c hc, (h.fits c).senders t⟩)
    fun c hc => (h.clear htr hc).executed).imp ?_))
  · simpa [executed, without] using hx.1
  · change m ∈ (x.without t).waiting t at hm
    rw [waiting_without, if_pos rfl] at hm
    cases hm
  · rintro _ _ rfl
    rw [(h.listed t tr htr).1]
    refine .next (sat_pure.2 (sat_modify.2 ?_))
    refine h.finish (f := (·.executed t)) (fun _ => rfl) (fun _ => rfl) (fun c hc => ?_) _
    change _ ++ (s.connections c).waiting t = d.queued c ++ messagesTo c ((d.sent t).getD [])
    simp [h.delivers.queued c hc, h.delivers.waiting c t sent hc hsn, hsn]

theorem Agrees.sat_cancel : Sat (strict True) (busTransactionCancelAndFree t) s
      (fun u s' => Agrees s' (d.after (.cancel t) (.ok u))) fun _ _ => False := by
  obtain ⟨tr, htr⟩ := Option.isSome_iff_exists.1 ht
  have hst : ∀ c s, (s.connections c).data.isSome →
      Sat (strict True) (connectionCancelTransaction t c) s
        (fun _ s' => s' = s.setConnection c (·.without t)) fun _ _ => False := by
    intro c s hc
    obtain ⟨x, hx⟩ := Option.isSome_iff_exists.1 hc
    exact sat_read_ok (valueOr_eq_ok.2 hx) (sat_modify.2 rfl)
  refine sat_read_ok (valueOr_eq_ok.2 htr) (.next ((sat_forEach_connections
    (P := fun x => x.data.isSome) hst (fun x => (x.clear_without t).without) (fun x hx => ?_) (h.delivers.gone t tr htr)
    fun c hc => (h.clear htr hc).without).imp ?_))
  · simpa [without] using hx
  · rintro _ _ rfl
    rw [(h.listed t tr htr).1]
    refine .next (sat_pure.2 (.next (sat_pure.2 (sat_modify.2 ?_))))
    exact h.finish (f := (·.without t)) (fun _ => rfl) (fun _ => rfl) h.delivers.queued s.broadcasts

end

end

/-! ## Sending -/

section
variable (h : Agrees s d) (ht : (s.transactions t).isSome)
include h ht

theorem Agrees.send (hm : m.sender ≠ none) (hnx : s'.nextTransaction = s.nextTransaction)
    (ho : ∀ c', c' ≠ c → s'.connections c' = s.connections c')
    (hdt : (s'.connections c).data.isSome = (s.connections c).data.isSome)
    (hcn : (s'.connections c).connected = (s.connections c).connected)
    (hot : (s'.connections c).outgoing = (s.connections c).outgoing)
    (hw : ∀ t', (s'.connections c).waiting t' = if t' = t ∧ (s.connections c).connected = true
      then (s.connections c).waiting t' ++ [m] else (s.connections c).waiting t')
    (htr : ∀ t', (s'.transactions t').isSome = (s.transactions t').isSome)
    (hl : ∀ t' tr, s'.transactions t' = some tr → tr.cancelHooks = [] ∧ tr.connections.Nodup ∧
      ∀ c, c ∈ tr.connections ↔ (s'.connections c).waiting t' ≠ []) :
    Agrees s' { d with sent := Function.update d.sent t ((d.sent t).map (· ++ [(c, m)])) } := by
  obtain ⟨sent, hsn⟩ := Option.isSome_iff_exists.1 (h.opened t ▸ ht)
  refine ⟨h.next.trans hnx.symm, fun t' ht' => ?_, fun t' => ?_, fun c' => ?_, hl⟩
  · have hne : t' ≠ t := by
      rintro rfl
      simp [h.unopened t' ht'] at hsn
    simpa [hne] using h.unopened t' ht'
  · rw [htr, h.opened]
    by_cases htt : t' = t
    · simp [htt]
    · simp [htt]
  · by_cases hc : c' = c
    · subst hc
      have hnw : Deliveries.sentTo { d with
          sent := Function.update d.sent t ((d.sent t).map (· ++ [(c', m)])) } c' =
          Function.update (d.sentTo c') t (some (messagesTo c' sent ++ [m])) := by
        funext t'
        by_cases htt : t' = t <;> simp [Deliveries.sentTo, htt, hsn, messagesTo]
      rw [hnw]
      exact (h.fits c').put hm (by rw [Deliveries.sentTo, hsn, Option.map_some]) hdt hcn hot hw
    · have hol : Deliveries.sentTo { d with
          sent := Function.update d.sent t ((d.sent t).map (· ++ [(c, m)])) } c' = d.sentTo c' := by
        funext t'
        by_cases htt : t' = t <;> simp [Deliveries.sentTo, htt, hsn, messagesTo, Ne.symm hc]
      rw [hol, ho c' hc]
      exact h.fits c'

theorem Agrees.sat_send (hm : m.sender ≠ none) : Sat (strict True) (busTransactionSend t c m) s
      (fun u s' => Agrees s' (d.after (.send t c m) (.ok u))) fun _ s' => s' = s := by
  refine .next (sat_check (assert_of hm) (.next (sat_get.2 (.ite (fun hlo => ?_) fun hl => ?_))))
  · refine sat_pure.2 (h.send ht hm rfl (fun _ _ => rfl) rfl rfl rfl (fun t' => ?_) (fun _ => rfl)
      h.listed)
    rw [if_neg fun hcn => by simp [Bus.isConnected, hcn.2] at hlo]
  · have hl : (s.connections c).connected = true := by simpa [Bus.isConnected] using hl
    obtain ⟨x, hx⟩ := Option.isSome_iff_exists.1 ((h.fits c).live hl).1
    obtain ⟨tr, htr⟩ := Option.isSome_iff_exists.1 ht
    refine sat_read_ok (valueOr_eq_ok.2 hx) (.next (sat_allocate ?_ fun _ => rfl))
    refine sat_read_ok (valueOr_eq_ok.2 htr) (.next (sat_modify.2 ?_))
    set s1 := s.putMessage c ⟨t, m⟩ with hs1
    have hsl : s1.connections c = ⟨true, some { x with
        transactionMessages := ⟨t, m⟩ :: x.transactionMessages }, (s.connections c).outgoing⟩ := by
      simp [hs1, Bus.putMessage, Bus.setData, Bus.setConnection, hx, hl]
    have ho : ∀ c', c' ≠ c → s1.connections c' = s.connections c' := by
      intro c' hc
      simp [hs1, Bus.putMessage, Bus.setData, Bus.setConnection, hc]
    have hw : ∀ t', (s1.connections c).waiting t' =
        if t' = t ∧ (s.connections c).connected = true
          then (s.connections c).waiting t' ++ [m] else (s.connections c).waiting t' := by
      intro t'
      rw [hsl]
      by_cases htt : t' = t
      · simp [BusConnection.waiting, hx, htt, hl]
      · simp [BusConnection.waiting, hx, htt, Ne.symm htt]
    have han : x.transactionMessages.any (·.transaction = t) = true ↔
        (s.connections c).waiting t ≠ [] := by
      rw [Ne, waiting_eq_nil]
      simp [Clear, hx]
    -- a transaction lists a connection on which one of its messages waits
    have hls : ∀ t' tr', s.transactions t' = some tr' →
        t' ≠ t ∨ (s.connections c).waiting t ≠ [] → tr'.cancelHooks = [] ∧ tr'.connections.Nodup ∧
          ∀ c', c' ∈ tr'.connections ↔ (s1.connections c').waiting t' ≠ [] := by
      intro t' tr' ht' hol
      obtain ⟨hh, hnd, hmm⟩ := h.listed t' tr' ht'
      refine ⟨hh, hnd, fun c' => ?_⟩
      rw [hmm]
      by_cases hc : c' = c
      · rw [hc, hw]
        split
        · rename_i hcn
          obtain ⟨rfl, -⟩ := hcn
          simp [hol.resolve_left fun hne => hne rfl]
        · rfl
      · rw [ho c' hc]
    have hsn : ∀ transactions : ℕ → Option BusTransaction,
        (∀ t', (transactions t').isSome = (s.transactions t').isSome) →
        (∀ t' tr, transactions t' = some tr → tr.cancelHooks = [] ∧ tr.connections.Nodup ∧
          ∀ c, c ∈ tr.connections ↔ (s1.connections c).waiting t' ≠ []) →
        Agrees { s1 with transactions := transactions } (d.after (.send t c m) (.ok ())) := by
      intro transactions hop hls
      refine h.send (c := c) ht hm rfl ho ?_ ?_ ?_ hw hop hls
      all_goals simp [hsl, hx, hl]
    refine .ite (fun hin => ?_) fun hot => ?_
    · exact sat_pure.2 (hsn s.transactions (fun _ => rfl) fun t' tr' ht' =>
        hls t' tr' ht' (.inr (han.1 hin)))
    · refine .next (.onError (sat_allocate (sat_modify.2 (hsn _ (fun t' => ?_) fun t' tr' ht' => ?_))
        fun _ => sat_modify.2 (s.dropMessage_putMessage c _)))
      · by_cases htt : t' = t
        · simp [htt, htr]
        · simp [hs1, Bus.putMessage, Bus.setData, Bus.setConnection, htt]
      · by_cases htt : t' = t
        · subst htt
          rw [update_self, Option.some_inj] at ht'
          subst ht'
          obtain ⟨hh, hnd, hmm⟩ := h.listed t' tr htr
          have hnl : (s.connections c).waiting t' = [] := by
            by_contra hne
            exact hot (han.2 hne)
          refine ⟨hh, nodup_cons.2 ⟨fun hin => (hmm c).1 hin hnl, hnd⟩, fun c' => ?_⟩
          rw [mem_cons, hmm]
          by_cases hcc : c' = c
          · simp [hcc, hw, hl]
          · simp [hcc, ho c' hcc]
        · rw [update_of_ne htt] at ht'
          exact hls t' tr' ht' (.inl htt)

end

/-! ## Connections go -/

theorem Agrees.lost (h : Agrees s d) (c : ℕ) :
    Agrees (s.setConnection c fun x => { x with connected := false }) d := by
  set s' := s.setConnection c fun x => { x with connected := false } with hs'
  have hcs : ∀ c', s'.connections c' = s.connections c' ∨
      s'.connections c' = { s.connections c' with connected := false } := by
    intro c'
    by_cases hc : c' = c
    · exact .inr (by simp [hs', Bus.setConnection, hc])
    · exact .inl (by simp [hs', Bus.setConnection, hc])
  refine ⟨h.next, h.unopened, h.opened, fun c' => ?_, fun t tr htr => ?_⟩
  · rcases hcs c' with heq | heq
    · rw [heq]
      exact h.fits c'
    · rw [heq]
      refine ⟨(h.fits c').finished, (h.fits c').senders, ?_⟩
      rintro ⟨⟩
  · obtain ⟨hh, hnd, hm⟩ := h.listed t tr htr
    refine ⟨hh, hnd, fun c' => (hm c').trans ?_⟩
    rcases hcs c' with heq | heq
    · rw [heq]
    · rw [heq]
      rfl

def BusTransaction.without (tr : BusTransaction) (c : ℕ) : BusTransaction :=
  { tr with connections := tr.connections.erase c }

/-- The transactions of the messages that wait on a connection forget it, which is all that
    list it. -/
theorem sat_forgetAll {messages : List MessageToSend}
    (hnd : ∀ t tr, s.transactions t = some tr → tr.connections.Nodup)
    (hl : ∀ t tr, s.transactions t = some tr → c ∈ tr.connections →
      ∃ w ∈ messages, w.transaction = t) :
    Sat (strict True) (forEach (forgetConnection c) messages) s
      (fun _ s' => s' = { s with transactions := fun t => (s.transactions t).map (·.without c) })
      fun _ _ => False := by
  induction messages generalizing s with
  | nil =>
    refine sat_pure.2 ?_
    have hsm : (fun t => (s.transactions t).map (·.without c)) = s.transactions := by
      funext t
      cases htr : s.transactions t with
      | none => rfl
      | some tr =>
        have hnt : c ∉ tr.connections := fun hin => by simpa using hl t tr htr hin
        rw [Option.map_some, BusTransaction.without, erase_of_not_mem hnt]
    rw [hsm]
  | cons w messages ih =>
    refine .next (sat_modify.2 ?_)
    let s1 := s.setTransaction w.transaction ((s.transactions w.transaction).map (·.without c))
    change Sat (strict True) (forEach (forgetConnection c) messages) s1 _ _
    have hat : ∀ t, s1.transactions t = if t = w.transaction
        then (s.transactions t).map (·.without c) else s.transactions t := by
      intro t
      by_cases ht : t = w.transaction
      · simp [s1, Bus.setTransaction, ht]
      · simp [s1, Bus.setTransaction, ht]
    refine (ih (fun t tr htr => ?_) fun t tr htr hin => ?_).imp ?_
    · rw [hat] at htr
      split at htr
      · obtain ⟨tr0, htr0, rfl⟩ := Option.map_eq_some_iff.1 htr
        exact (hnd t tr0 htr0).erase c
      · exact hnd t tr htr
    · rw [hat] at htr
      split at htr
      · obtain ⟨tr0, htr0, rfl⟩ := Option.map_eq_some_iff.1 htr
        exact absurd hin (hnd t tr0 htr0).not_mem_erase
      · obtain ⟨w', hw', ht'⟩ := hl t tr htr hin
        rcases mem_cons.1 hw' with rfl | hw'
        · exact absurd ht'.symm ‹_›
        · exact ⟨w', hw', ht'⟩
    · rintro _ _ rfl
      have hsm : (fun t => (s1.transactions t).map (·.without c)) =
          fun t => (s.transactions t).map (·.without c) := by
        funext t
        rw [hat]
        split
        · cases htr : s.transactions t with
          | none => rfl
          | some tr =>
            have htw := erase_of_not_mem (hnd t tr htr).not_mem_erase (a := c)
            simp only [Option.map_some, BusTransaction.without, htw]
        · rfl
      rw [hsm]
      rfl

theorem Agrees.forget (h : Agrees s d) (hnx : s'.nextTransaction = s.nextTransaction)
    (hsl : s'.connections c = ⟨false, none, (s.connections c).outgoing⟩)
    (ho : ∀ c', c' ≠ c → s'.connections c' = s.connections c')
    (htn : ∀ t, s'.transactions t = (s.transactions t).map fun tr => tr.without c) :
    Agrees s' d := by
  have hnl : ∀ t, (s'.connections c).waiting t = [] := fun t => by rw [hsl]; rfl
  refine ⟨h.next.trans hnx.symm, h.unopened, fun t => ?_, fun c' => ?_, fun t tr htr => ?_⟩
  · rw [htn, Option.isSome_map]
    exact h.opened t
  · by_cases hc : c' = c
    · subst hc
      refine ⟨fun t hne => absurd (hnl t) hne, fun t m hm => ?_, fun hy => ?_⟩
      · simp [hnl] at hm
      · simp [hsl] at hy
    · rw [ho c' hc]
      exact h.fits c'
  · rw [htn] at htr
    obtain ⟨tr0, htr0, rfl⟩ := Option.map_eq_some_iff.1 htr
    obtain ⟨hh, hnd, hm⟩ := h.listed t tr0 htr0
    refine ⟨hh, hnd.erase c, fun c' => ?_⟩
    rw [BusTransaction.without, hnd.mem_erase_iff, hm]
    by_cases hc : c' = c
    · simp [hc, hnl]
    · simp [hc, ho c' hc]

theorem Agrees.sat_disconnected (h : Agrees s d) (hc : (s.connections c).data.isSome) :
    Sat (strict True) (transactionStep (.disconnected c)) s (fun _ s' => Agrees s' d)
      fun _ _ => False := by
  obtain ⟨x, hx⟩ := Option.isSome_iff_exists.1 hc
  have hfr := sat_forgetAll (s := s.setConnection c fun y => { y with connected := false })
    (c := c) (fun t tr ht => (h.listed t tr ht).2.1) (by
      intro t tr ht hin
      have hne := ((h.listed t tr ht).2.2 c).1 hin
      by_contra hnn
      refine hne (waiting_eq_nil.2 fun d hd w hw htw => hnn ⟨w, ?_, htw⟩)
      rw [hx] at hd
      cases hd
      exact hw)
  refine .next (sat_modify.2 (.next (sat_read_ok (a := x) ?_ (.next (hfr.imp ?_)))))
  · refine valueOr_eq_ok.2 ?_
    simp [Bus.setConnection, hx]
  · rintro _ _ rfl
    refine sat_modify.2 (sat_modify.2 (h.forget (c := c) rfl ?_ (fun c' hc' => ?_) fun t => rfl))
    · simp [Bus.setData, Bus.setConnection]
    · simp [Bus.setData, Bus.setConnection, hc']

/-! ## Runs -/

theorem Agrees.sat_new (h : Agrees s d) :
    Sat (strict True) (transactionStep .new) s (fun u s' => Agrees s' (d.after .new (.ok u)))
      fun _ s' => s' = s := by
  refine .next (.next (sat_allocate ?_ fun _ => rfl))
  refine .next (sat_get.2 (.next (sat_modify.2 (sat_pure.2 (sat_pure.2 ?_)))))
  have hnn := h.unopened d.next le_rfl
  have hnl : ∀ c, (s.connections c).waiting d.next = [] := by
    intro c
    by_contra hne
    simpa [Deliveries.sentTo, hnn] using (h.fits c).finished d.next hne
  rw [← h.next]
  refine ⟨rfl, fun t ht => ?_, fun t => ?_, fun c => ⟨fun t hne => ?_, (h.fits c).senders, fun hc => ?_⟩,
    fun t tr htr => ?_⟩
  · have hlt : d.next < t := ht
    simpa [Deliveries.after, hlt.ne'] using h.unopened t hlt.le
  · by_cases hn : t = d.next
    · simp [Deliveries.after, Bus.setTransaction, hn]
    · simpa [Deliveries.after, Bus.setTransaction, hn] using h.opened t
  · by_cases hn : t = d.next
    · simp [Deliveries.after, Deliveries.sentTo, hn]
    · simpa [Deliveries.after, Deliveries.sentTo, hn] using (h.fits c).finished t hne
  · obtain ⟨hsm, ho, hal⟩ := (h.fits c).live hc
    refine ⟨hsm, ho, fun t l hl => ?_⟩
    by_cases hn : t = d.next
    · obtain rfl : [] = l := by simpa [Deliveries.after, Deliveries.sentTo, hn, messagesTo] using hl
      exact hn ▸ hnl c
    · exact hal t l (by simpa [Deliveries.after, Deliveries.sentTo, hn] using hl)
  · by_cases hn : t = d.next
    · obtain rfl : ⟨[], [], []⟩ = tr := by simpa [Bus.setTransaction, hn] using htr
      exact ⟨rfl, nodup_nil, fun c => iff_of_false not_mem_nil (not_not.2 (hn ▸ hnl c))⟩
    · exact h.listed t tr (by simpa [Bus.setTransaction, hn] using htr)

theorem Agrees.step (h : Agrees s d) {event : TransactionEvent} (hp : event.Possible s) :
    Sat (strict True) (transactionStep event) s (fun u s' => Agrees s' (d.after event (.ok u)))
      fun e s' => Agrees s' (d.after event (.error e)) := by
  cases event with
  | lost c => exact sat_modify.2 (h.lost c)
  | disconnected c => exact (h.sat_disconnected hp).mono (fun _ _ h => h) fun _ _ => False.elim
  | new => exact h.sat_new.mono (fun _ _ h => h) fun _ _ hs => hs ▸ h
  | send t c m => exact (h.sat_send hp.1 hp.2).mono (fun _ _ h => h) fun _ _ hs => hs ▸ h
  | execute t => exact (h.sat_execute hp).mono (fun _ _ h => h) fun _ _ => False.elim
  | cancel t => exact (h.sat_cancel hp).mono (fun _ _ h => h) fun _ _ => False.elim

theorem Bus.Quiet.agrees (h : s.Quiet) :
    Agrees s ⟨s.nextTransaction, fun _ => none, fun c => (s.connections c).outgoing⟩ := by
  have hnl : ∀ c t, (s.connections c).waiting t = [] := fun c t =>
    waiting_eq_nil.2 fun x hx w hw => by simp [h.empty c x hx] at hw
  refine ⟨rfl, fun _ _ => rfl, fun t => by rw [h.closed t]; rfl,
    fun c => ⟨fun t hne => absurd (hnl c t) hne, fun t m hm => ?_, fun hc => ?_⟩, fun t tr htr => ?_⟩
  · simp [hnl] at hm
  · refine ⟨h.live c hc, rfl, ?_⟩
    rintro t l ⟨⟩
  · simp [h.closed t] at htr

theorem TransactionRun.agrees (h : TransactionRun s d) : Agrees s d := by
  induction h with
  | start hq => exact hq.agrees
  | step event fails _ hp hrn ih =>
    rcases (ih.step hp).run_ok trivial hrn with ⟨_, rfl, h'⟩ | ⟨_, rfl, h'⟩
    · exact h'
    · exact h'

/-- **Transactions deliver** what is sent through them when they are executed, and nothing
    else; and no event that is possible stops the daemon. -/
theorem transactions_deliver (s : Bus) (d : Deliveries) (h : TransactionRun s d) :
    s.Delivers d ∧ ∀ event : TransactionEvent, event.Possible s → ∀ fails,
      ∃ out s' rest, (transactionStep event).run s fails = (.ok (out, s'), rest) := by
  refine ⟨h.agrees.delivers, fun event hp fails => ?_⟩
  have hen := h.agrees.step hp fails fun _ => trivial
  rcases hrn : (transactionStep event).run s fails with ⟨w | ⟨out, s'⟩, rest⟩
  · rw [hrn] at hen
    exact hen.elim
  · exact ⟨out, s', rest, rfl⟩

end

def greeting : BusMessage := { type := .signal, sender := some (asciiBytes ":1.0") }

def oneConnection : Bus :=
  { Bus.empty with connections := fun _ => ⟨true, some .new, []⟩, nextConnection := 1 }

/-- Of two transactions the first is executed, and the second is cancelled.  Before that, memory
    for the list of connections runs out once, and one connection is lost and goes. -/
theorem transactions_deliver_greeting : ∃ s d, TransactionRun s d ∧
    (s.connections 0).outgoing = [greeting] := by
  have hsn : greeting.sender ≠ none := by simp [greeting]
  have hq : oneConnection.Quiet := by
    refine ⟨fun _ => rfl, ?_, fun _ _ => rfl⟩
    rintro c x ⟨⟩
    rfl
  have hst := ((TransactionRun.start hq).step .new [] trivial rfl).step .new [] trivial rfl
  have hsd := ((hst.step (.send 0 0 greeting) [false, true] ⟨rfl, hsn⟩ rfl).step
    (.send 0 0 greeting) [] ⟨rfl, hsn⟩ rfl).step (.send 1 0 greeting) [] ⟨rfl, hsn⟩ rfl
  have hls := ((hsd.step (.send 0 1 greeting) [] ⟨rfl, hsn⟩ rfl).step (.lost 1) [] trivial rfl).step
    (.disconnected 1) [] rfl rfl
  have hrn := (hls.step (.cancel 1) [] rfl rfl).step (.execute 0) [] rfl rfl
  exact ⟨_, _, hrn, (transactions_deliver _ _ hrn).1.queued 0 rfl⟩

end DBus
