/-
  What the driver's own business does to messages and replies.

  Counting references, changing owners and undoing these changes leaves the mail of the bus
  alone (`SameMail`).  Changing names sends messages of the driver and leaves hooks in one
  transaction: such functions stay within every preorder that has these steps (`Carries`).
-/
import DBus.Bus.Dispatch
import DBus.Bus.Recipients
import DBus.Lib.Always

namespace DBus

open BusM Eff Function

/-! ## Errors -/

/-- The runs in which allocations may fail if `oom` holds, and which may be stopped. -/
def lenient (oom : Prop) : Mode Stop := ⟨oom, fun _ => True⟩

/-- An error that says that memory has run out only if it may. -/
def AnyError (oom : Prop) (e : DBusError) : Prop := e.name = .noMemory → oom

/-- What a function does that may have any error. -/
abbrev LeadsAny {α : Type} (oom : Prop) (R : Bus → Bus → Prop) (s : Bus) (x : BusM α) : Prop :=
  Leads (lenient oom) (AnyError oom) R s x

/-- The error of a function that can only run out of memory. -/
def MemoryError (oom : Prop) (_ : DBusError) : Prop := oom

variable {α : Type} {oom : Prop} {N : DBusError → Prop} {R : Bus → Bus → Prop} {s : Bus}

section
variable {β : Type} {c : Prop} {f : Bus → Res α} {E : DBusError → Bus → Prop} {g : α → BusM β}
  {Q : β → Bus → Prop}

theorem leads_check [IsPreorder Bus R] {y : Res α} : Leads (lenient oom) N R s (Eff.check y) := by
  refine sat_lift.2 ?_
  cases y with
  | error w => trivial
  | ok a => exact refl s

theorem leads_assert [IsPreorder Bus R] [Decidable c] :
    Leads (lenient oom) N R s (BusM.assert c) := leads_check

theorem sat_read_bind (h : ∀ a, f s = .ok a → Sat (lenient oom) (g a) s Q E) :
    Sat (lenient oom) (read f >>= g) s Q E := by
  refine .next (sat_lift.2 ?_)
  cases hf : f s with
  | error w => trivial
  | ok a => exact h a hf

theorem leads_read (h : ∀ a, f s = .ok a → Leads (lenient oom) N R s (g a)) :
    Leads (lenient oom) N R s (read f >>= g) :=
  sat_read_bind h

theorem leads_read_last [IsPreorder Bus R] : Leads (lenient oom) N R s (read f) := by
  refine sat_lift.2 ?_
  cases f s with
  | error w => trivial
  | ok a => exact refl s

variable {g : Unit → BusM β} {name : ErrorName} {text : List UInt8}

theorem sat_assert_bind [Decidable c] (h : c → Sat (lenient oom) (g ()) s Q E) :
    Sat (lenient oom) (BusM.assert c >>= g) s Q E := by
  refine .next (sat_lift.2 ?_)
  by_cases hc : c
  · rw [assert_of hc]
    exact h hc
  · simp only [DBus.assert, hc]
    trivial

theorem leads_assert_bind [Decidable c] (h : c → Leads (lenient oom) N R s (g ())) :
    Leads (lenient oom) N R s (BusM.assert c >>= g) :=
  sat_assert_bind h

/-- The errors that a function may have if it can run out of memory. -/
class HasOom (oom : Prop) (N : DBusError → Prop) : Prop where
  of_oom : oom → ∀ e, N e

instance : HasOom oom (AnyError oom) := ⟨fun h _ _ => h⟩

instance : HasOom oom (MemoryError oom) := ⟨fun h _ => h⟩

theorem leads_allocate [IsPreorder Bus R] [HasOom oom N] :
    Leads (lenient oom) N R s BusM.allocate :=
  .allocate fun h => HasOom.of_oom (show oom from h) _

theorem leads_allocate_bind [IsPreorder Bus R] [HasOom oom N]
    (h : Leads (lenient oom) N R s (g ())) : Leads (lenient oom) N R s (BusM.allocate >>= g) := by
  refine .seq (Q := fun _ s' => s' = s)
    (sat_allocate ⟨refl s, rfl⟩ fun ho => ⟨HasOom.of_oom (show oom from ho) _, refl s⟩) ?_
  rintro _ s' - rfl
  exact h

theorem sat_fail {Q : α → Bus → Prop} (h : name ≠ .noMemory) (hE : ∀ e, AnyError oom e → E e s) :
    Sat (lenient oom) (BusM.fail name text : BusM α) s Q E := by
  refine .next (sat_allocate ?_ fun ho => hE _ fun _ => ho)
  exact sat_throw.2 (hE _ fun he => absurd he h)

theorem leads_fail [IsPreorder Bus R] (h : name ≠ .noMemory) :
    LeadsAny oom R s (BusM.fail name text : BusM α) :=
  sat_fail h fun _ he => ⟨he, refl s⟩

/-- A check that fails the request. -/
theorem leads_guard [IsPreorder Bus R] [Decidable c] {x : BusM α}
    (hn : name ≠ .noMemory) (h : LeadsAny oom R s x) :
    LeadsAny oom R s (if c then BusM.fail name text else x) :=
  .ite (fun _ => leads_fail hn) fun _ => h

theorem leads_ofExcept [IsPreorder Bus R] {y : Except PlainError α} :
    LeadsAny oom R s (BusM.ofExcept y) := by
  cases y with
  | ok a => exact .pure
  | error e => exact leads_allocate_bind (.throw fun he => absurd he e.2)

theorem leads_waiting {x : BusM α} (h : Leads (lenient oom) N R s x) :
    Leads (lenient oom) N R s (BusM.waiting x) :=
  sat_lift.2 (Sat.outcome h)

end

/-- Counting a connection for its user changes the entry of the user, which is not zero. -/
theorem sat_adjust {M : Mode Stop} {Q : Unit → Bus → Prop} {E : DBusError → Bus → Prop} {uid : ℕ}
    {a : ℤ} (hc : 0 ≤ s.connectionsForUid uid + a ∨ ∀ w, M.fault w)
    (hQ : ∀ new : Option ℕ, new ≠ some 0 → (new.getD 0 : ℤ) = s.connectionsForUid uid + a →
      Q () (s.setUser uid new)) (hE : M.oom → 0 < a → E .oom s) :
    Sat M (adjustConnectionsForUid uid a) s Q E := by
  refine .next (sat_get.2 (.next ?_))
  by_cases h0 : 0 ≤ (s.connectionsForUid uid : ℤ) + a
  swap
  · simp only [BusM.assert, DBus.assert, h0]
    exact sat_lift.2 (hc.resolve_left h0 _)
  refine sat_check (assert_of h0) (.ite (fun hz => sat_modify.2 (hQ none nofun hz.symm)) fun hz => ?_)
  have hnew : Q () (s.setUser uid (some (s.connectionsForUid uid + a).toNat)) := by
    refine hQ _ (fun h => hz ?_) (Int.toNat_of_nonneg h0)
    rw [← Int.toNat_of_nonneg h0, Option.some.inj h]
    rfl
  refine .ite (fun hn => .next ?_) fun _ => sat_modify.2 hnew
  -- without an entry, the count is the adjustment
  have ha : 0 < a := by
    rw [Bus.connectionsForUid, hn] at h0 hz
    rw [Option.getD_none] at h0 hz
    omega
  exact .onError (sat_allocate (sat_modify.2 hnew) fun ho => sat_check (assert_of ha) (hE ho ha))

/-! ## Steps that leave the mail alone -/

/-- Two states with the same mail; pending activations may be gone in the second. -/
structure SameMail (s s' : Bus) : Prop where
  pendingReplies : s'.pendingReplies = s.pendingReplies
  transactions : s'.transactions = s.transactions
  nextConnection : s'.nextConnection = s.nextConnection
  connected : ∀ c, (s'.connections c).connected = (s.connections c).connected
  outgoing : ∀ c, (s'.connections c).outgoing = (s.connections c).outgoing
  data : ∀ c, (s'.connections c).data.map (fun d => (d.name, d.transactionMessages)) =
    (s.connections c).data.map fun d => (d.name, d.transactionMessages)
  entries : ∀ p q', s'.activation.pendings p = some q' →
    ∃ q, s.activation.pendings p = some q ∧ q.entries = q'.entries

instance : IsPreorder Bus SameMail where
  refl s := ⟨rfl, rfl, rfl, fun _ => rfl, fun _ => rfl, fun _ => rfl, fun p q' h => ⟨q', h, rfl⟩⟩
  trans s s' s'' h h' := by
    refine ⟨h'.1.trans h.1, h'.2.trans h.2, h'.3.trans h.3, fun c => (h'.4 c).trans (h.4 c),
      fun c => (h'.5 c).trans (h.5 c), fun c => (h'.6 c).trans (h.6 c), fun p q'' hq'' => ?_⟩
    obtain ⟨q', hq', he'⟩ := h'.7 p q'' hq''
    obtain ⟨q, hq, he⟩ := h.7 p q' hq'
    exact ⟨q, hq, he.trans he'⟩

/-- The state without what belongs to names and their activation. -/
def Bus.rest (s : Bus) : Bus :=
  { s with
    connections := fun c => { s.connections c with data := (s.connections c).data.map fun d =>
      { d with servicesOwned := [], nServicesOwned := 0 } }
    registry := .new
    activation := ⟨∅, fun _ => none, 0, 0, ∅⟩
    nextMajorNumber := 0
    nextMinorNumber := 0 }

/-- Two states that differ in names and their activation only; pending activations may be gone
    in the second. -/
structure Aside (s s' : Bus) : Prop where
  rest : s'.rest = s.rest
  entries : ∀ p q', s'.activation.pendings p = some q' →
    ∃ q, s.activation.pendings p = some q ∧ q.entries = q'.entries

instance : IsPreorder Bus Aside where
  refl s := ⟨rfl, fun p q' h => ⟨q', h, rfl⟩⟩
  trans s s' s'' h h' := by
    refine ⟨h'.rest.trans h.rest, fun p q'' hq'' => ?_⟩
    obtain ⟨q', hq', he'⟩ := h'.entries p q'' hq''
    obtain ⟨q, hq, he⟩ := h.entries p q' hq'
    exact ⟨q, hq, he.trans he'⟩

theorem Aside.sameMail {s' : Bus} (h : Aside s s') : SameMail s s' := by
  have hc := fun c => congrFun (congrArg Bus.connections h.rest) c
  refine ⟨(congrArg Bus.pendingReplies h.rest :), (congrArg Bus.transactions h.rest :),
    (congrArg Bus.nextConnection h.rest :), fun c => (congrArg BusConnection.connected (hc c) :),
    fun c => (congrArg BusConnection.outgoing (hc c) :), fun c => ?_, h.entries⟩
  have hdt := congrArg (fun x => x.data.map fun d => (d.name, d.transactionMessages)) (hc c)
  simpa [Bus.rest, Option.map_map, comp_def] using hdt

section
variable {s' : Bus} {f : BusConnectionData → BusConnectionData} {pending : ℕ}

theorem Aside.always {x : BusM α} (h : Always (lenient oom) N Aside x) :
    Always (lenient oom) N SameMail x :=
  h.mono (fun _ h => h) fun _ _ h => h.sameMail

theorem Aside.of_eq (hrs : s'.rest = s.rest)
    (ha : s'.activation.pendings = s.activation.pendings) : Aside s s' :=
  ⟨hrs, fun p q' h => ⟨q', by rw [← ha, h], rfl⟩⟩

theorem rest_setData (c : ℕ) (hf : ∀ d, { f d with servicesOwned := [], nServicesOwned := 0 } =
      { d with servicesOwned := [], nServicesOwned := 0 }) : (s.setData c f).rest = s.rest := by
  have hc : (s.setData c f).rest.connections = s.rest.connections := by
    funext c'
    by_cases h : c' = c
    · simp [Bus.rest, Bus.setData, Bus.setConnection, h, Option.map_map, comp_def, hf]
    · simp [Bus.rest, Bus.setData, Bus.setConnection, h]
  exact congrArg (fun connections => { s.rest with connections := connections }) hc

theorem SameMail.of_eq (hc : s'.connections = s.connections)
    (hr : s'.pendingReplies = s.pendingReplies) (ht : s'.transactions = s.transactions)
    (hn : s'.nextConnection = s.nextConnection)
    (ha : s'.activation.pendings = s.activation.pendings) : SameMail s s' :=
  ⟨hr, ht, hn, fun c => by rw [hc], fun c => by rw [hc], fun c => by rw [hc],
    fun p q' h => ⟨q', by rw [← ha, h], rfl⟩⟩

theorem sameMail_setData (connection : ℕ)
    (hc : s'.connections = (s.setData connection f).connections)
    (hr : s'.pendingReplies = s.pendingReplies) (ht : s'.transactions = s.transactions)
    (hn : s'.nextConnection = s.nextConnection)
    (ha : s'.activation.pendings = s.activation.pendings)
    (hf : ∀ d, (f d).name = d.name ∧ (f d).transactionMessages = d.transactionMessages) :
    SameMail s s' := by
  have hcn : ∀ c, s'.connections c = s.connections c ∨
      s'.connections c = { s.connections c with data := (s.connections c).data.map f } := by
    intro c
    rw [hc]
    simp only [Bus.setData, Bus.setConnection, update_apply]
    split
    · rename_i h
      subst h
      exact .inr rfl
    · exact .inl rfl
  refine ⟨hr, ht, hn, fun c => ?_, fun c => ?_, fun c => ?_, fun p q' h => ⟨q', by rw [← ha, h], rfl⟩⟩
  · rcases hcn c with h | h <;> rw [h]
  · rcases hcn c with h | h <;> rw [h]
  · rcases hcn c with h | h
    · rw [h]
    · rw [h]
      simp [Option.map_map, comp_def, hf]

theorem aside_setPending {value : Option BusPendingActivation} (hrs : s'.rest = s.rest)
    (ha : s'.activation.pendings = (s.setPending pending value).activation.pendings)
    (hv : ∀ q', value = some q' →
      ∃ q, s.activation.pendings pending = some q ∧ q.entries = q'.entries) : Aside s s' := by
  refine ⟨hrs, fun p q' h => ?_⟩
  rw [ha] at h
  simp only [Bus.setPending, Bus.setActivation, update_apply] at h
  split at h
  · rename_i hp
    subst hp
    exact hv q' h
  · exact ⟨q', h, rfl⟩

theorem of_pending {p : BusPendingActivation} (h : s.pending pending = .ok p) :
    s.activation.pendings pending = some p :=
  Outcome.valueOr_eq_ok.1 h

theorem of_transaction {t : ℕ} {tr : BusTransaction} (h : s.transaction t = .ok tr) :
    s.transactions t = some tr :=
  Outcome.valueOr_eq_ok.1 h

theorem of_connectionData {c : ℕ} {d : BusConnectionData} (h : s.connectionData c = .ok d) :
    (s.connections c).data = some d :=
  Outcome.valueOr_eq_ok.1 h

variable (connection service owner pending : ℕ)

theorem always_addOwnedServiceLink :
    Always (lenient oom) N Aside (busConnectionAddOwnedServiceLink connection service) := by
  intro s
  refine leads_read fun d _ => .modify ?_
  exact .of_eq (rest_setData connection fun _ => rfl) rfl

theorem always_removeOwnedService :
    Always (lenient oom) N Aside (busConnectionRemoveOwnedService connection service) := by
  intro s
  refine leads_read fun d _ => leads_assert_bind fun _ => .modify ?_
  exact .of_eq (rest_setData connection fun _ => rfl) rfl

theorem always_ownerSetFlags (flags : NameFlags) :
    Always (lenient oom) N Aside (busOwnerSetFlags owner flags) := by
  intro s
  exact leads_read fun o _ => .modify (.of_eq rfl rfl)

theorem always_ownerNew [HasOom oom N] (flags : NameFlags) :
    Always (lenient oom) N Aside (busOwnerNew service connection flags) := by
  intro s
  refine leads_allocate_bind (.get (.bind (always_addOwnedServiceLink _ _ s) ?_))
  intro _ s' _
  exact .bind (.modify (.of_eq rfl rfl)) fun _ _ _ => .pure

theorem always_ownerRef : Always (lenient oom) N Aside (busOwnerRef owner) := by
  intro s
  exact leads_read fun o _ => leads_assert_bind fun _ => .modify (.of_eq rfl rfl)

theorem always_ownerUnref : Always (lenient oom) N Aside (busOwnerUnref owner) := by
  intro s
  refine leads_read fun o _ => leads_assert_bind fun _ => .ite (fun _ => ?_) fun _ => ?_
  · exact .bind (always_removeOwnedService _ _ s) fun _ _ _ => .modify (.of_eq rfl rfl)
  · exact .modify (.of_eq rfl rfl)

theorem always_serviceRef : Always (lenient oom) N Aside (busServiceRef service) := by
  intro s
  exact leads_read fun o _ => leads_assert_bind fun _ => .modify (.of_eq rfl rfl)

theorem always_serviceUnref : Always (lenient oom) N Aside (busServiceUnref service) := by
  intro s
  refine leads_read fun o _ => leads_assert_bind fun _ => .ite (fun _ => ?_) fun _ => ?_
  · exact leads_assert_bind fun _ => .modify (.of_eq rfl rfl)
  · exact .modify (.of_eq rfl rfl)

theorem always_setOwners (f : List ℕ → List ℕ) :
    Always (lenient oom) N Aside (setOwners service f) := by
  intro s
  exact leads_read fun o _ => .modify (.of_eq rfl rfl)

theorem always_unlinkOwner : Always (lenient oom) N Aside (busServiceUnlinkOwner service owner) :=
  fun s => .bind (always_setOwners _ _ s) fun _ s' _ => always_ownerUnref owner s'

theorem always_unlink : Always (lenient oom) N Aside (busServiceUnlink service) := by
  intro s
  refine leads_read fun o _ => leads_assert_bind fun _ => ?_
  exact .bind (.modify (.of_eq rfl rfl)) fun _ s' _ => always_serviceUnref service s'

theorem always_freeOwnershipData : Always (lenient oom) N Aside (freeOwnershipData service owner) :=
  fun s => .bind (always_ownerUnref owner s) fun _ s' _ => always_serviceUnref service s'

theorem always_pendingRef : Always (lenient oom) N Aside (busPendingActivationRef pending) := by
  intro s
  refine leads_read fun p hp => leads_assert_bind fun _ => .modify ?_
  refine aside_setPending rfl rfl ?_
  rintro _ ⟨⟩
  exact ⟨p, of_pending hp, rfl⟩

theorem always_pendingUnref : Always (lenient oom) N Aside (busPendingActivationUnref pending) := by
  intro s
  refine leads_read fun p hp => leads_assert_bind fun _ => .ite (fun _ => ?_) fun _ => ?_
  · refine .get (leads_assert_bind fun _ => .modify ?_)
    exact aside_setPending rfl rfl nofun
  · refine .modify (aside_setPending rfl rfl ?_)
    rintro _ ⟨⟩
    exact ⟨p, of_pending hp, rfl⟩

theorem always_removePending (name : List UInt8) :
    Always (lenient oom) N Aside (removePendingActivation name) := by
  intro s
  refine .get ?_
  cases s.activation.pendingActivations.lookup name with
  | none => exact .pure
  | some pending =>
    exact .bind (.modify (.of_eq rfl rfl)) fun _ s' _ => always_pendingUnref pending s'

theorem always_hookFree (cancelled : Bool) (hook : CancelHook) :
    Always (lenient oom) N Aside (cancelHookFree cancelled hook) := by
  cases hook with
  | cancelOwnership service owner => exact always_freeOwnershipData service owner
  | restoreOwnership d => exact always_freeOwnershipData d.service d.owner
  | cancelPending pending | restorePending pending => exact always_pendingUnref pending
  | cancelPendingReply _ => exact fun s => .pure
  | cancelCheckPendingReply reply => exact fun s => .get leads_assert

end

/-! ## Messages of the driver -/

/-- The preorders that have what the driver does to send: its messages are put into the
    transaction `t`, which notes its signals. -/
structure Posts (oom : Prop) (t : ℕ) (R : Bus → Bus → Prop) : Prop where
  broadcast : ∀ {s tr} bs, s.transactions t = some tr →
    R s (s.setTransaction t (some { tr with broadcasts := bs }))
  send : ∀ {s} c m, m.sender = some serviceDBus →
    Leads (lenient oom) (MemoryError oom) R s (busTransactionSend t c m)

/-- The preorders that have all steps of the driver: also what leaves the mail alone, and
    the hooks of the transaction. -/
structure Carries (oom : Prop) (t : ℕ) (R : Bus → Bus → Prop) : Prop extends Posts oom t R where
  same : ∀ {s s'}, Aside s s' → R s s'
  hook : ∀ {s tr} hook, s.transactions t = some tr →
    R s (s.setTransaction t (some { tr with cancelHooks := hook :: tr.cancelHooks }))

instance {oom : Prop} {t : ℕ} {R : Bus → Bus → Prop} : Coe (Carries oom t R) (Posts oom t R) :=
  ⟨Carries.toPosts⟩

section
variable {t : ℕ}

theorem Carries.always (hR : Carries oom t R) {x : BusM α} (h : Always (lenient oom) N Aside x) :
    Always (lenient oom) N R x :=
  h.mono (fun _ h => h) fun _ _ => hR.same

variable [IsPreorder Bus R] (hP : Posts oom t R) (hR : Carries oom t R) (env : BusEnv)
  {m : BusMessage} {addressed : Option ℕ} {c : ℕ}

theorem leads_refuse : LeadsAny oom R s (refuse env m : BusM α) := .get (leads_fail nofun)

theorem leads_checkRecipient (sender addressed proposed : Option ℕ) (requested : Bool)
    (m : BusMessage) :
    LeadsAny oom R s (checkRecipient env sender addressed proposed requested m) := by
  refine .get ?_
  cases proposed with
  | none => exact .pure
  | some recipient =>
    refine .ite (fun _ => leads_refuse env) fun _ => ?_
    exact leads_guard nofun .pure

theorem leads_policy_driver (addressed proposed : Option ℕ) (m : BusMessage) : LeadsAny oom R s
      (busContextCheckSecurityPolicy env t none addressed proposed m) := by
  refine .get (leads_assert_bind fun _ => leads_assert_bind fun _ => ?_)
  split
  · exact leads_fail nofun
  · exact leads_fail nofun
  · refine .bind (.get Leads.pure) ?_
    rintro (_ | requested) s' _
    · exact .pure
    · refine .get (leads_assert_bind fun _ => .ite (fun _ => leads_refuse env) fun _ => ?_)
      exact .bind (leads_checkRecipient env _ _ _ _ _) fun _ _ _ => .pure

section
variable {proposed : Option ℕ} (hne : ∀ r, addressed = some r → proposed ≠ some r)
include hne

/-- A message of a connection that does not go to the one it is addressed to: nothing is
    changed, and an inactive connection can only say hello. -/
theorem sat_policy_apart :
    Sat (lenient oom) (busContextCheckSecurityPolicy env t (some c) addressed proposed m) s
      (fun _ s' => s' = s ∧ (s.isActive c = true ∨ m.isMethodCall interfaceDBus "Hello" = true))
      fun e s' => AnyError oom e ∧ s' = s := by
  have hrf : ∀ {β : Type} {Q : β → Bus → Prop},
      Sat (lenient oom) (refuse env m) s Q fun e s' => AnyError oom e ∧ s' = s :=
    .next (sat_get.2 (sat_fail (by decide) fun _ he => ⟨he, rfl⟩))
  have hfl : ∀ {β : Type} {Q : β → Bus → Prop} {name : ErrorName} {text : List UInt8},
      name ≠ .noMemory → Sat (lenient oom) (BusM.fail name text) s Q
        fun e s' => AnyError oom e ∧ s' = s :=
    fun hnm => sat_fail hnm fun _ he => ⟨he, rfl⟩
  have hsn : Sat (lenient oom) (checkSender env t (some c) addressed proposed m) s
      (fun _ s' => s' = s ∧ (s.isActive c = true ∨ m.isMethodCall interfaceDBus "Hello" = true))
      fun e s' => AnyError oom e ∧ s' = s := by
    refine .next (sat_get.2 (.ite (fun _ => hrf) fun _ => .ite (fun hac => ?_) ?_))
    · cases proposed with
      | none => exact sat_pure.2 ⟨rfl, .inl hac⟩
      | some recipient =>
        refine .ite (fun h => ?_) fun _ => sat_pure.2 ⟨rfl, .inl hac⟩
        exact absurd rfl (hne recipient h.2)
    · intro _
      exact .ite (fun h => sat_pure.2 ⟨rfl, .inr h.2⟩) fun _ => hfl (by decide)
  refine .next (sat_get.2 (sat_assert_bind fun _ => sat_assert_bind fun _ => ?_))
  split
  · exact hfl (by decide)
  · exact hfl (by decide)
  · refine .next (hsn.imp ?_)
    rintro (_ | requested) s' ⟨rfl, hac⟩
    · exact sat_pure.2 ⟨rfl, hac⟩
    · refine .next (sat_get.2 (sat_assert_bind fun _ => .ite (fun _ => hrf) fun _ => ?_))
      have hrc : Sat (lenient oom)
          (checkRecipient env (some c) addressed proposed requested m) s' (fun _ s'' => s'' = s')
          fun e s'' => AnyError oom e ∧ s'' = s' := by
        refine .next (sat_get.2 ?_)
        cases proposed with
        | none => exact sat_pure.2 rfl
        | some recipient =>
          refine .ite (fun _ => hrf) fun _ => ?_
          exact .ite (fun _ => hfl (by decide)) fun _ => sat_pure.2 rfl
      refine .next (hrc.imp ?_)
      rintro _ s'' rfl
      cases addressed with
      | none => exact sat_pure.2 ⟨rfl, hac⟩
      | some recipient =>
        refine .ite (fun h => ?_) fun _ => sat_pure.2 ⟨rfl, hac⟩
        exact absurd h.2.symm (hne recipient rfl)

theorem leads_policy_apart : LeadsAny oom R s
      (busContextCheckSecurityPolicy env t (some c) addressed proposed m) := by
  refine Sat.mono (sat_policy_apart env hne) ?_ ?_
  · rintro _ s' ⟨rfl, -⟩
    exact refl s'
  · rintro e s' ⟨he, rfl⟩
    exact ⟨he, refl s'⟩

end

/-- A message of a connection that is put to the match rules: those it goes to are not the
    one it is addressed to. -/
theorem leads_matches_of (hsn : ∀ b s, LeadsAny oom R s (busTransactionSend t b m)) :
    LeadsAny oom R s (busDispatchMatches env t (some c) addressed m) := by
  refine .get (leads_assert_bind fun _ => leads_assert_bind fun _ => leads_read fun tr _ => ?_)
  refine .ite (fun h => absurd h (by simp)) fun _ => ?_
  refine .bind (Always.forEach (fun _ _ _ => leads_allocate) s) fun _ s1 _ => ?_
  refine Always.forEach (fun b hb s2 => ?_) s1
  have hne : ∀ a, addressed = some a → some b ≠ some a := by
    rintro a rfl h
    exact (mem_recipients.1 hb).1 (by simpa using h)
  have hal : LeadsAny oom R s2 (allowed env t (some c) addressed (some b) m) :=
    .attempt (leads_policy_apart env hne) (fun _ _ _ => .pure) fun _ _ _ _ => .pure
  exact .bind hal fun pass s3 _ => .ite (fun _ => hsn b s3) fun _ => .pure

theorem leads_allowed_driver (addressed proposed : Option ℕ) (m : BusMessage) :
    Leads (lenient oom) N R s (allowed env t none addressed proposed m) :=
  .attempt (leads_policy_driver env addressed proposed m) (fun _ _ _ => .pure) fun _ _ _ _ => .pure

omit [IsPreorder Bus R] in
include hR in
theorem leads_addCancelHook (hook : CancelHook) :
    Leads (lenient oom) N R s (addCancelHook t hook) :=
  leads_read fun _ htr => .modify (hR.hook hook (of_transaction htr))

variable [HasOom oom N]

section
include hP

omit [IsPreorder Bus R] in
theorem Posts.send' (c : ℕ) (m : BusMessage) (hm : m.sender = some serviceDBus) :
    Leads (lenient oom) N R s (busTransactionSend t c m) :=
  (hP.send c m hm).mono (fun e he => HasOom.of_oom (show oom from he) e) fun _ h => h

theorem leads_sendFromDriver (c : ℕ) (m : BusMessage) :
    Leads (lenient oom) N R s (busTransactionSendFromDriver env t c m) := by
  refine leads_allocate_bind (.get (.bind (leads_allowed_driver env _ _ _) ?_))
  intro pass s' _
  exact .ite (fun _ => hP.send' c _ rfl) fun _ => .pure

theorem leads_sendErrorReply (c : ℕ) (e : DBusError) (m : BusMessage) :
    Leads (lenient oom) N R s (busTransactionSendErrorReply env t c e m) :=
  leads_allocate_bind (leads_sendFromDriver hP env c _)

theorem leads_sendReply (c : ℕ) (m : BusMessage) (body : List Value) :
    Leads (lenient oom) N R s (sendReply env t c m body) :=
  leads_allocate_bind (leads_sendFromDriver hP env c _)

section
variable (hm : m.sender = some serviceDBus) (addressed : Option ℕ)
include hm

theorem leads_sendOne_driver (c : ℕ) :
    Leads (lenient oom) N R s (sendOneMessage env t none addressed m c) := by
  refine .bind (leads_allowed_driver env _ _ _) fun pass s' _ => ?_
  exact .ite (fun _ => hP.send' c _ hm) fun _ => .pure

theorem leads_matches_driver :
    Leads (lenient oom) N R s (busDispatchMatches env t none addressed m) := by
  refine .get (leads_assert_bind fun _ => leads_assert_bind fun _ => leads_read ?_)
  intro tr htr
  refine .bind (.modify (hP.broadcast _ (of_transaction htr))) fun _ s1 _ => ?_
  refine .bind (Always.forEach (fun _ _ _ => leads_allocate) s1) fun _ s2 _ => ?_
  exact Always.forEach (fun c _ _ => leads_sendOne_driver hP env hm addressed c) s2

end

theorem leads_ownerChanged (name : List UInt8) (old new : Option (List UInt8)) :
    Leads (lenient oom) N R s (busDriverSendServiceOwnerChanged env name old new t) :=
  leads_allocate_bind (leads_matches_driver hP env rfl none)

theorem leads_nameSignal (member : String) (c : ℕ) (name : List UInt8) :
    Leads (lenient oom) N R s (sendNameSignal member env c name t) :=
  leads_read fun _ _ => leads_allocate_bind (leads_sendFromDriver hP env c _)

end

include hR

theorem leads_serviceCreated (name : List UInt8) :
    Leads (lenient oom) N R s (busActivationServiceCreated env name t) := by
  refine .get ?_
  cases s.pendingActivation name with
  | none => exact .pure
  | some pending =>
    refine leads_read fun p _ => Always.forEach (fun entry _ s' => ?_) _
    exact .get (.ite (fun _ => leads_sendReply hR env _ _ _) fun _ => .pure)

/-! ## Owners -/

theorem leads_addNewOwner (service c : ℕ) (flags : NameFlags) :
    Leads (lenient oom) N R s (addNewOwner service c flags t) := by
  refine .bind (hR.always (always_ownerNew c service flags) s) fun owner s1 _ => ?_
  refine .bind (hR.always (always_ownerSetFlags owner flags) s1) fun _ s2 _ => ?_
  refine .bind (.onError leads_allocate (hR.always (always_ownerUnref owner)))
    fun _ s3 _ => leads_read fun sv _ => ?_
  have hh : ∀ s4, Leads (lenient oom) N R s4
      ((addCancelOwnershipToTransaction t service owner).onError
        (busServiceUnlinkOwner service owner)) := by
    intro s4
    refine .onError (leads_allocate_bind ?_) (hR.always (always_unlinkOwner service owner))
    refine .bind (leads_addCancelHook hR _) fun _ s5 _ => ?_
    refine .bind (hR.always (always_serviceRef service) s5) fun _ s6 _ => ?_
    exact hR.always (always_ownerRef owner) s6
  split
  · exact .bind (hR.always (always_setOwners service _) s3) fun _ s4 _ => hh s4
  · exact .bind (hR.always (always_setOwners service _) s3) fun _ s4 _ => hh s4

omit [HasOom oom N] in
theorem leads_updateOwner (service owner : ℕ) (flags : NameFlags) :
    Leads (lenient oom) N R s (updateOwner service owner flags) := by
  unfold updateOwner
  split
  · refine leads_read fun sv _ => leads_assert_bind fun _ => ?_
    refine .bind (hR.always (always_setOwners service _) s) fun _ s1 _ => ?_
    exact hR.always (always_ownerSetFlags owner flags) s1
  · exact hR.always (always_ownerSetFlags owner flags) s

omit hR [HasOom oom N] in
theorem leads_findOwner (service c : ℕ) : Leads (lenient oom) N R s (findOwner service c) :=
  leads_read fun _ _ => leads_read_last

theorem leads_addFound (service c : ℕ) (flags : NameFlags) :
    Leads (lenient oom) N R s (findOwner service c >>= fun owner =>
      match owner with
      | none => addNewOwner service c flags t
      | some owner => updateOwner service owner flags) := by
  refine .bind (leads_findOwner service c) ?_
  rintro (_ | owner) s2 _
  · exact leads_addNewOwner hR service c flags
  · exact leads_updateOwner hR service owner flags

theorem leads_addOwner (service c : ℕ) (flags : NameFlags) :
    Leads (lenient oom) N R s (busServiceAddOwner env service c flags t) := by
  refine leads_read fun sv _ => ?_
  split
  · exact .bind (leads_nameSignal hR env _ c _) fun _ _ _ => leads_addFound hR service c flags
  · exact leads_addFound hR service c flags

theorem leads_addRestore (service owner : ℕ) :
    Leads (lenient oom) N R s (addRestoreOwnershipToTransaction t service owner) := by
  refine leads_allocate_bind (leads_read fun sv _ => ?_)
  refine .bind (hR.always (always_serviceRef service) s) fun _ s1 _ => ?_
  refine .bind (hR.always (always_ownerRef owner) s1) fun _ s2 _ => ?_
  exact leads_addCancelHook hR _

theorem leads_ownerReplaced (name : List UInt8) (old new : ℕ) :
    Leads (lenient oom) N R s (sendOwnerReplaced env name old new t) := by
  refine leads_read fun o _ => leads_read fun d _ => leads_read fun d' _ => ?_
  exact .bind (leads_ownerChanged hR env _ _ _) fun _ s1 _ => leads_nameSignal hR env _ _ _

theorem leads_swapOwner (service c : ℕ) :
    Leads (lenient oom) N R s (busServiceSwapOwner env service c t) := by
  refine leads_read fun sv _ => ?_
  rcases sv.owners with _ | ⟨primary, _ | ⟨next, others⟩⟩
  · exact leads_assert
  · refine leads_read fun p _ => leads_assert_bind fun _ => ?_
    exact .bind (leads_nameSignal hR env _ _ _) fun _ s1 _ => leads_assert
  · refine leads_read fun p _ => leads_assert_bind fun _ => ?_
    refine .bind (leads_nameSignal hR env _ _ _) fun _ s1 _ => ?_
    refine .bind (leads_ownerReplaced hR env _ _ _) fun _ s2 _ => ?_
    refine .bind (leads_addRestore hR service primary) fun _ s3 _ => ?_
    exact hR.always (always_setOwners service _) s3

theorem leads_removePrimary (service c primary : ℕ) (rest : List ℕ) :
    Leads (lenient oom) N R s (removePrimaryOwner env service c primary t rest) := by
  refine leads_read fun sv _ => .bind (leads_nameSignal hR env _ _ _) fun _ s1 _ => ?_
  have hl : ∀ s2, Leads (lenient oom) N R s2
      (addRestoreOwnershipToTransaction t service primary >>= fun _ =>
        busServiceUnlinkOwner service primary >>= fun _ => read (·.service service) >>= fun sv =>
          if sv.owners = [] then busServiceUnlink service else pure ()) := by
    intro s2
    refine .bind (leads_addRestore hR service primary) fun _ s3 _ => ?_
    refine .bind (hR.always (always_unlinkOwner service primary) s3) fun _ s4 _ => ?_
    refine leads_read fun sv _ => .ite (fun _ => ?_) fun _ => .pure
    exact hR.always (always_unlink service) s4
  cases rest with
  | nil =>
    refine leads_read fun old _ => ?_
    exact .bind (leads_ownerChanged hR env _ _ _) fun _ s2 _ => hl s2
  | cons next others => exact .bind (leads_ownerReplaced hR env _ _ _) fun _ s2 _ => hl s2

omit [HasOom oom N] in
theorem leads_removeQueued (service c : ℕ) :
    Leads (lenient oom) N R s (removeQueuedOwner service c) := by
  refine .bind (leads_findOwner service c) ?_
  rintro (_ | owner) s1 _
  · exact leads_check
  · exact .bind (hR.always (always_setOwners service _) s1) fun _ s2 _ =>
      hR.always (always_ownerUnref owner) s2

theorem leads_removeOwner (service c : ℕ) :
    Leads (lenient oom) N R s (busServiceRemoveOwner env service c t) := by
  refine leads_read fun sv _ => ?_
  rcases sv.owners with _ | ⟨primary, rest⟩
  · exact leads_removeQueued hR service c
  · refine leads_read fun p _ => .ite (fun _ => ?_) fun _ => leads_removeQueued hR service c
    exact leads_removePrimary hR env service c primary rest

/-! ## The registry -/

theorem leads_ensure (name : List UInt8) (c : ℕ) (flags : NameFlags) :
    Leads (lenient oom) N R s (busRegistryEnsure env name c flags t) := by
  refine .get ?_
  cases s.registry.lookup name with
  | some service => exact .pure
  | none =>
    have hu : Always (lenient oom) N R (busServiceUnref s.registry.nextService) :=
      hR.always (always_serviceUnref _)
    refine leads_allocate_bind (.bind (.modify (hR.same (.of_eq rfl rfl))) ?_)
    intro _ s1 _
    refine leads_read fun d _ => ?_
    refine .bind (.onError (leads_ownerChanged hR env _ _ _) hu) fun _ s2 _ => ?_
    refine .bind (.onError (leads_serviceCreated hR env name) hu) fun _ s3 _ => ?_
    refine .bind (.onError (leads_addOwner hR env _ c flags) hu) fun _ s4 _ => ?_
    refine leads_allocate_bind (.bind (.modify (hR.same (.of_eq rfl rfl))) ?_)
    exact fun _ _ _ => .pure

omit hR [HasOom oom N] in
theorem leads_checkRelease (name : List UInt8) : LeadsAny oom R s (checkRelease name) := by
  refine .bind leads_check fun valid s1 _ => .ite (fun _ => ?_) fun _ => ?_
  · refine leads_guard nofun ?_
    exact leads_guard nofun .pure
  · exact leads_fail nofun

omit [HasOom oom N] in
theorem leads_release (c : ℕ) (name : List UInt8) :
    LeadsAny oom R s (busRegistryReleaseService env c name t) := by
  refine .bind (leads_checkRelease name) fun _ s1 _ => .get ?_
  have hend : ∀ reply s2, LeadsAny oom R s2 ((do
      modify (·.setRegistry fun r => { r with uniquePidHash := r.uniquePidHash.erase name })
      return reply) : BusM ReleaseReply) := fun reply s2 =>
    .bind (.modify (hR.same (.of_eq rfl rfl))) fun _ _ _ => .pure
  cases s1.registry.lookup name with
  | none => exact .bind Leads.pure fun reply s2 _ => hend reply s2
  | some service =>
    refine .bind ?_ fun reply s2 _ => hend reply s2
    refine .bind (.bind (leads_findOwner service c) fun _ _ _ => .pure) ?_
    intro has s2 _
    refine .ite (fun _ => ?_) fun _ => .pure
    refine .bind (leads_removeOwner hR env service c) fun _ _ _ => ?_
    refine .bind (.bind (leads_findOwner service c) fun _ _ _ => .pure) fun _ _ _ => ?_
    exact leads_assert_bind fun _ => .pure

omit hR [HasOom oom N] in
theorem leads_primaryOwner (service : ℕ) :
    Leads (lenient oom) N R s (busServiceGetPrimaryOwner service) :=
  leads_read fun _ _ => .pure

omit hR [HasOom oom N] in
theorem leads_primaryConnection (service : ℕ) :
    Leads (lenient oom) N R s (busServiceGetPrimaryOwnersConnection service) := by
  refine .bind (leads_primaryOwner service) ?_
  rintro (_ | owner) s1 _
  · exact .pure
  · exact leads_read fun _ _ => .pure

omit hR [HasOom oom N] in
theorem leads_allocateUnchecked : Leads (lenient oom) N R s allocateUnchecked := by
  have hal : LeadsAny oom R s BusM.allocate := leads_allocate
  exact .attempt hal (fun _ _ _ => .pure) fun _ _ _ _ => leads_check

omit [HasOom oom N] in
theorem leads_rememberPid (base : List UInt8) (pid : ℤ) :
    Leads (lenient oom) N R s (rememberPid base pid) := by
  refine .bind leads_allocateUnchecked fun _ s1 _ => ?_
  have hal : LeadsAny oom R s1 BusM.allocate := leads_allocate
  exact .attempt hal (fun _ _ _ => .modify (hR.same (.of_eq rfl rfl))) fun _ _ _ _ => .pure

omit [HasOom oom N] in
theorem leads_releaseOld (c : ℕ) (base : List UInt8) (pid : ℤ) :
    Leads (lenient oom) N R s (releaseOldServiceIfUnique env c base pid t) := by
  refine .get (.ite (fun _ => .pure) fun _ => ?_)
  refine .ite (fun _ => .pure) fun _ => ?_
  refine .ite (fun _ => .bind ?_ fun owner s1 _ => ?_) fun _ => leads_rememberPid hR base pid
  · cases s.registry.lookup base with
    | none => exact .pure
    | some service =>
      refine .bind (leads_primaryConnection service) ?_
      rintro (_ | owner) s1 _
      · exact .bind leads_check fun _ _ _ => .pure
      · exact .pure
  · refine .attempt (leads_release hR env owner base) (fun _ _ _ => leads_rememberPid hR base pid) ?_
    exact fun _ _ _ _ => .bind leads_assert fun _ _ _ => leads_rememberPid hR base pid

omit [HasOom oom N] in
theorem leads_requestedName (c : ℕ) (name : List UInt8) :
    Leads (lenient oom) N R s (requestedName env c name t) := by
  unfold requestedName
  split
  · exact .pure
  · refine .bind leads_allocateUnchecked fun _ s1 _ => ?_
    exact .bind (leads_releaseOld hR env c _ _) fun _ _ _ => .pure

omit hR [HasOom oom N] in
theorem leads_checkAcquire (c : ℕ) (name : List UInt8) :
    LeadsAny oom R s (checkAcquire env c name) := by
  refine .bind leads_check fun valid s1 _ => .ite (fun _ => ?_) fun _ => ?_
  · refine .get (leads_read fun d _ => ?_)
    refine leads_guard nofun ?_
    refine leads_guard nofun ?_
    refine leads_guard nofun ?_
    refine leads_guard nofun ?_
    exact leads_guard nofun .pure
  · exact leads_fail nofun

omit [HasOom oom N] in
theorem leads_leaveQueue (service c : ℕ) : Leads (lenient oom) N R s (leaveQueue service c) := by
  refine .bind (.bind (leads_findOwner service c) fun _ _ _ => .pure) ?_
  exact fun has s1 _ => .ite (fun _ => leads_removeQueued hR service c) fun _ => .pure

theorem leads_requestOwned (service c primary : ℕ) (flags : NameFlags) :
    Leads (lenient oom) N R s (requestOwned env service c primary flags t) := by
  refine leads_read fun p _ => .ite (fun _ => ?_) fun _ => ?_
  · exact .bind (hR.always (always_ownerSetFlags primary flags) s) fun _ _ _ => .pure
  · have hal : Leads (lenient oom) N R s (busServiceGetAllowReplacement service) := by
      refine leads_read fun sv _ => ?_
      cases sv.owners with
      | nil => exact .bind leads_assert fun _ _ _ => .pure
      | cons owner _ => exact leads_read fun _ _ => .pure
    have hend : ∀ s2, Leads (lenient oom) N R s2
        (busServiceGetPrimaryOwnersConnection service >>= fun current =>
          BusM.assert (current = some c) >>= fun _ => pure RequestReply.primaryOwner) :=
      fun s2 => .bind (leads_primaryConnection service) fun _ _ _ =>
        .bind leads_assert fun _ _ _ => .pure
    refine .bind hal fun allow s1 _ => .ite (fun _ => ?_) fun _ => ?_
    · exact .bind (leads_leaveQueue hR service c) fun _ _ _ => .pure
    · refine .ite (fun _ => ?_) fun _ => ?_
      · exact .bind (leads_addOwner hR env service c flags) fun _ _ _ => .pure
      · refine .bind (leads_addOwner hR env service c flags) fun _ s2 _ => ?_
        refine .ite (fun _ => ?_) fun _ => ?_
        · exact .bind (leads_removeOwner hR env service _) fun _ s3 _ => hend s3
        · exact .bind (leads_swapOwner hR env service _) fun _ s3 _ => hend s3

/-! ## The methods of the driver -/

omit [HasOom oom N] in
theorem leads_handleRelease (c : ℕ) (m : BusMessage) :
    LeadsAny oom R s (busDriverHandleReleaseService env c t m) := by
  unfold busDriverHandleReleaseService
  split
  · exact .bind (leads_release hR env c _) fun _ _ _ => leads_sendReply hR env _ _ _
  · exact leads_fail nofun

omit [HasOom oom N] in
theorem leads_handleEnvironment (c : ℕ) (m : BusMessage) : LeadsAny oom R s
      (busDriverHandleUpdateActivationEnvironment env c t m) := by
  unfold busDriverHandleUpdateActivationEnvironment
  split
  · refine .bind (Always.forEach (fun _ _ _ => leads_allocate) s) fun _ s1 _ => ?_
    refine .bind (Always.forEach (fun entry _ s' => ?_) s1) fun _ _ _ =>
      leads_sendReply hR env _ _ _
    exact leads_allocate_bind (.modify (hR.same (.of_eq rfl rfl)))
  · exact leads_fail nofun

omit [IsPreorder Bus R] hR [HasOom oom N] in
theorem always_removeRule (rule : ℕ × BusMatchRule) :
    Always (lenient oom) N SameMail (busMatchmakerRemoveRuleLink rule) := by
  intro s
  refine leads_read fun d _ => leads_assert_bind fun _ => .modify ?_
  exact sameMail_setData rule.2.matchesGoTo rfl rfl rfl rfl rfl fun _ => ⟨rfl, rfl⟩

omit [HasOom oom N] in
theorem leads_handleAddMatch (hM : ∀ {s s'}, SameMail s s' → R s s') (c : ℕ) (m : BusMessage) :
    LeadsAny oom R s (busDriverHandleAddMatch env c t m) := by
  refine .get (leads_read fun d _ => leads_guard nofun ?_)
  split
  · refine leads_allocate_bind (.bind leads_ofExcept fun rule s1 _ => ?_)
    have had : LeadsAny oom R s1 (busMatchmakerAddRule { rule with matchesGoTo := c }) := by
      refine .get (leads_assert_bind fun _ => leads_allocate_bind ?_)
      refine .bind (.modify (hM ?_)) fun _ _ _ => .pure
      exact sameMail_setData c rfl rfl rfl rfl rfl fun _ => ⟨rfl, rfl⟩
    refine .bind had fun added s2 _ => ?_
    exact .onError (leads_sendReply hR env _ _ _) ((always_removeRule _).mono
      (fun _ h => h) fun _ _ => hM)
  · exact leads_fail nofun

omit [HasOom oom N] in
theorem leads_handleRemoveMatch (hM : ∀ {s s'}, SameMail s s' → R s s') (c : ℕ) (m : BusMessage) :
    LeadsAny oom R s (busDriverHandleRemoveMatch env c t m) := by
  unfold busDriverHandleRemoveMatch
  split
  · refine leads_allocate_bind (.bind leads_ofExcept fun rule s1 _ => ?_)
    refine .bind (leads_sendReply hR env _ _ _) fun _ s2 _ => .get ?_
    cases s2.findRule { rule with matchesGoTo := c } with
    | some r => exact ((always_removeRule r).mono (fun _ h => h) fun _ _ => hM) s2
    | none => exact leads_fail nofun
  · exact leads_fail nofun

omit hR [HasOom oom N] in
include hP in
theorem leads_answer (f : BusEnv → Bus → Res (Except PlainError (List Value))) (c : ℕ)
    (m : BusMessage) : LeadsAny oom R s (answer f env c t m) := by
  refine .get (.bind leads_check fun body s1 _ => ?_)
  exact .bind leads_ofExcept fun body s2 _ => leads_sendReply hP env _ _ _

omit hR [HasOom oom N] in
include hP in
theorem leads_answerName (f : Answer) (c : ℕ) (m : BusMessage) :
    LeadsAny oom R s (answerName f env c t m) := by
  unfold answerName
  split
  · exact leads_answer hP env _ c m
  · exact leads_fail nofun

omit hR [HasOom oom N] in
theorem leads_checkLimits (c : ℕ) : LeadsAny oom R s (busConnectionsCheckLimits env c) := by
  refine .get (leads_guard nofun ?_)
  cases env.unixUser c with
  | none => exact .pure
  | some uid => exact leads_guard nofun .pure

omit [IsPreorder Bus R] hR in
theorem always_createUniqueName (fuel : ℕ) :
    Always (lenient oom) N Aside (createUniqueClientName fuel) := by
  induction fuel with
  | zero => exact fun s => leads_check
  | succ fuel ih =>
    intro s
    refine .get (leads_assert_bind fun _ => ?_)
    refine .bind (.modify (.of_eq rfl rfl)) fun _ s1 _ => leads_allocate_bind ?_
    refine .bind (.modify (.of_eq rfl rfl)) fun _ s2 _ => ?_
    exact .ite (fun _ => .pure) fun _ => ih s2

end

end DBus
